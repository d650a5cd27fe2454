import TaggedUnion.Optional.Chain
import TaggedUnion.Optional.Unwrap
import TaggedUnion.Proofs.Session.Reachable

/-!
# Worlds

What clients can bring about. A client calls the operations of the library in any order, on types that
have been registered and on instances that it holds, that is, on what earlier operations have given
it; it has no other way to come by an instance. The functions that it passes to operations on options
do the same when they are called.

* `World`: a session, and the instances held.
* `ClientM`: code that works on both, for the functions that clients pass.
* `World.Run`: any number of operations, one after the other.
* `World.Reachable`: what operations make of a new session with nothing held.
-/

namespace TaggedUnion

/-- A session, and the instances that any operation on it has returned or bound. -/
structure World where
  session : Session := {}
  held : List EnumValue := []

/-- Code that works in a session and holds on to the instances that it gets. -/
abbrev ClientM :=
  SessionT (StateM (List EnumValue))

/-- The same with the failures of operations on options. -/
abbrev OptionsClientM :=
  OptionsT (StateM (List EnumValue))

/-- Code that holds on to `x` before anything else. -/
def ClientM.given {α : Type} (x : Value) (code : ClientM α) : ClientM α := do
  StateT.lift (modify (· ++ x.enum?.toList))
  code

/-- An arm that hands its bindings to the client. What a body does with them are further operations. -/
def Arm.handing (head : ArmHead) : Arm Bindings :=
  ⟨head, id⟩

namespace World

/-- A value can be used if it is a scalar or an instance that is held. -/
def Holds (w : World) (x : Value) : Prop :=
  ∀ v, x = .enum v → v ∈ w.held

/-- Holds on to the instances among the given values. -/
def hold (w : World) (xs : List Value) : World :=
  { w with held := w.held ++ xs.filterMap Value.enum? }

/-- The world with another session in it. -/
def within (w : World) (session : Session) : World :=
  { w with session }

/-- The result of client code, and the world after it. -/
def exec {α : Type} (w : World) (code : ClientM α) : α × World :=
  let ((a, session), held) := (code.run w.session).run w.held
  (a, ⟨session, held⟩)

/-- The world after an operation on options, with what the operation gives held. -/
def perform {α : Type} (w : World) (code : OptionsClientM α) (given : α → List Value) : World :=
  match w.exec code.run with
  | (.ok a, w) => w.hold (given a)
  | (.error _, w) => w

/-- The values that a match has bound, if it has reached a body. -/
def bound : Except MatchError Bindings → List Value
  | .ok b => b.entries.map (·.2)
  | .error _ => []

/-- The worlds in which an operation on `option` may call a function of the client: it is called on
what the option holds, and the plans kept are all that has changed. -/
def CallsOn (w : World) (option : EnumValue) (x : Value) (u : World) : Prop :=
  x ∈ option.fields ∧ ∃ matcher : Matcher, matcher.Reachable w.session.registry ∧
    u = (w.within { w.session with matcher }).hold [x]

/-- Any number of operations of the library. A type is named after it was registered, an instance is
used while it is held, and a function of the client is itself made of operations. -/
inductive Run : World → World → Prop
  | refl {w : World} : Run w w
  | trans {w₁ w₂ w₃ : World} (h : Run w₁ w₂) (h' : Run w₂ w₃) : Run w₁ w₃
  -- types, and checks of arms
  | session {w : World} {s : Session} (hstep : w.session.Step s) : Run w (w.within s)
  -- instances
  | construct {w : World} {type : EnumType} {variant : String} {payload : Payload} {v : EnumValue}
      (ht : type ∈ w.session.registry.types) (hpayload : ∀ x ∈ payload.values, w.Holds x)
      (hr : construct type variant payload = .ok v) : Run w (w.hold [.enum v])
  | extract {w : World} {v : EnumValue} {variant : String} {payload : Payload} (hv : v ∈ w.held)
      (hr : v.extract variant = .ok payload) : Run w (w.hold payload.values)
  | extractFields {w : World} {v : EnumValue} {variant : String} {values : List Value}
      (hv : v ∈ w.held) (hr : v.extractFields variant = .ok values) : Run w (w.hold values)
  -- matches, with the matcher of the session or with another one
  | evaluate {w : World} {v : EnumValue} (hv : v ∈ w.held) (heads : List ArmHead) :
      Run w ((w.within (w.session.evaluate v (heads.map Arm.handing)).2).hold
        (bound (w.session.evaluate v (heads.map Arm.handing)).1))
  | evaluateWith {w : World} {v : EnumValue} {m : Matcher} (hv : v ∈ w.held)
      (hm : m.Reachable w.session.registry) (heads : List ArmHead) :
      Run w (w.hold (bound (m.evaluate v (heads.map Arm.handing)).1))
  -- options; `present` and `absent` are the two cases of `wrap`
  | wrap {w : World} {o : OptionType} {x : Option Value} {v : EnumValue}
      (ho : o ∈ w.session.options.instances) (hx : ∀ y ∈ x, w.Holds y) (hr : o.wrap x = .ok v) :
      Run w (w.hold [.enum v])
  | map {w : World} {option : EnumValue} {into : OptionType} {f : Value → ClientM Value}
      (hv : option ∈ w.held) (ho : into ∈ w.session.options.instances)
      (hf : ∀ x u, w.CallsOn option x u → Run u (u.exec (f x)).2)
      (hout : ∀ x u, w.CallsOn option x u → (u.exec (f x)).2.Holds (u.exec (f x)).1) :
      Run w (w.perform (Optional.map option into fun x => ClientM.given x (f x)) ([.enum ·]))
  | andThen {w : World} {option : EnumValue} {into : OptionType}
      {f : Value → OptionsClientM EnumValue} (hv : option ∈ w.held)
      (ho : into ∈ w.session.options.instances)
      (hf : ∀ x u, w.CallsOn option x u → Run u (u.exec (f x).run).2)
      (hout : ∀ x u v, w.CallsOn option x u → (u.exec (f x).run).1 = .ok v →
        v ∈ (u.exec (f x).run).2.held) :
      Run w (w.perform (Optional.andThen option into fun x => .mk (ClientM.given x (f x).run))
        ([.enum ·]))
  | orElse {w : World} {option alternative : EnumValue} (hv : option ∈ w.held)
      (ha : alternative ∈ w.held) : Run w (w.perform (Optional.orElse option alternative) ([.enum ·]))
  | unwrapOr {w : World} {option : EnumValue} {default : Value} (hv : option ∈ w.held)
      (hd : w.Holds default) : Run w (w.perform (Optional.unwrapOr option default) ([·]))
  | isPresent {w : World} {option : EnumValue} (hv : option ∈ w.held) :
      Run w (w.perform (Optional.isPresent option) fun _ => [])
  | isAbsent {w : World} {option : EnumValue} (hv : option ∈ w.held) :
      Run w (w.perform (Optional.isAbsent option) fun _ => [])
  | unwrap {w : World} {option : EnumValue} (hv : option ∈ w.held) :
      Run w (w.perform (Optional.unwrap option) ([·]))
  | held? {w : World} {option : EnumValue} (hv : option ∈ w.held) :
      Run w (w.perform (Optional.held? option) (·.toList))

/-- The worlds that clients can bring about. -/
def Reachable (w : World) : Prop :=
  Run {} w

/-! ## A message in an option -/

/-- The message `Write("hello")`. -/
def written : EnumValue :=
  ⟨Registry.message, ⟨2, Nat.lt_add_one 2⟩, [.text "hello"]⟩

/-- The option type over messages, the second type to be registered. -/
def optionOfMessage : OptionType where
  type :=
    { id := ⟨1⟩
      name := "Option<Message>"
      variants := OptionType.variants (.enum Registry.message.ref)
      index := ⟨[("Present", 0), ("Absent", 1)]⟩ }
  inner := .enum Registry.message.ref

/-- The option that holds `written`. -/
def writtenOption : EnumValue :=
  ⟨optionOfMessage.type, ⟨0, by decide⟩, [.enum written]⟩

/-- A world with a message and an option of it. -/
def messages : World where
  session :=
    { registry :=
        { byName := ⟨[("Message", Registry.message), ("Option<Message>", optionOfMessage.type)]⟩
          nextId := 2 }
      options :=
        { byInner := ⟨[(optionOfMessage.inner, optionOfMessage)]⟩
          byType := ⟨[(optionOfMessage.type.id, optionOfMessage)]⟩ } }
  held := [written, writtenOption]

theorem reachable_messages : Reachable messages := by
  -- registered, written, the option type over messages, and put into an option
  have hregister : Session.register {} "Message" Registry.message.variants
      = (.ok Registry.message, { registry := .onlyMessage }) := rfl
  have hwritten : construct Registry.message "Write" (.positional [.text "hello"]) = .ok written :=
    rfl
  have hoption : Session.optionOver { registry := .onlyMessage }
      (.enum Registry.message.ref) = (.ok optionOfMessage, messages.session) := rfl
  have hwrap : optionOfMessage.wrap (some (.enum written)) = .ok writtenOption := rfl
  have hmem : Registry.message ∈ Registry.onlyMessage.types := List.mem_singleton.mpr rfl
  have hknown : Registry.onlyMessage.Knows (.enum Registry.message.ref) :=
    ⟨Registry.message, hmem, rfl⟩
  refine .trans (.session (.register (Registry.declares_message _) hregister)) ?_
  refine .trans (.construct hmem ?_ hwritten) ?_
  · intro x hx v hv
    rw [List.mem_singleton.mp hx] at hv
    cases hv
  refine .trans (.session (.optionOver hknown hoption)) ?_
  refine .wrap (List.mem_singleton.mpr rfl) ?_ hwrap
  intro y hy v hv
  cases hy
  cases hv
  exact List.mem_singleton.mpr rfl

/-- A client passes a function that changes nothing. It is called with the message, and the option is
made once more. -/
example : ∃ w, Run messages w ∧ w.held = [written, writtenOption, written, writtenOption] := by
  have hoption : writtenOption ∈ messages.held := by simp [messages]
  have hinto : optionOfMessage ∈ messages.session.options.instances := List.mem_singleton.mpr rfl
  refine ⟨_, .map hoption hinto (f := fun x => pure x) ?_ ?_, rfl⟩
  · intro x u hu
    exact .refl
  · intro x u hu v hv
    obtain ⟨-, m, -, rfl⟩ := hu
    cases hv
    exact List.mem_append_right _ (List.mem_singleton.mpr rfl)

end World

end TaggedUnion
