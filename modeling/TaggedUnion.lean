import TaggedUnion.Error
import TaggedUnion.Optional.Chain
import TaggedUnion.Optional.Unwrap
import TaggedUnion.Schema.Inspect
import TaggedUnion.Value.Render
import TaggedUnion.Proofs.Value.Conform
import TaggedUnion.Proofs.Value.WellFormed
import TaggedUnion.Proofs.Match.Binder
import TaggedUnion.Proofs.Match.Arms
import TaggedUnion.Proofs.Match.Compile
import TaggedUnion.Proofs.Match.Cache
import TaggedUnion.Proofs.Match.Dispatch
import TaggedUnion.Proofs.Text.Pieces
import TaggedUnion.Proofs.Schema.InstanceName
import TaggedUnion.Proofs.Session.World
import TaggedUnion.Proofs.Session.Invariant
import TaggedUnion.Proofs.Optional.Table
import TaggedUnion.Proofs.Optional.Claimed
import TaggedUnion.Proofs.Optional.Refinement
import TaggedUnion.Proofs.Value.RoundTrip
import TaggedUnion.Proofs.Session.History
import TaggedUnion.Proofs.Match.Typing
import TaggedUnion.Proofs.Value.Acceptance
import TaggedUnion.Proofs.Schema.References
import TaggedUnion.Proofs.Value.Nesting
import TaggedUnion.Proofs.Optional.Tower
import TaggedUnion.Proofs.Match.FirstKept
import TaggedUnion.Proofs.Optional.Asks
import TaggedUnion.Proofs.Optional.Laws
import TaggedUnion.Proofs.Value.Equality
import TaggedUnion.Proofs.Value.PayloadEquality
import TaggedUnion.Proofs.Optional.Mapping
import TaggedUnion.Proofs.Optional.Layers
import TaggedUnion.Proofs.Match.Defects
import TaggedUnion.Proofs.Match.Rewriting
import TaggedUnion.Proofs.Match.Completion
import TaggedUnion.Proofs.Schema.Registration
import TaggedUnion.Proofs.Value.Misfits
import TaggedUnion.Proofs.Match.Reading
import TaggedUnion.Proofs.Match.BinderDefects
import TaggedUnion.Proofs.Match.Taking
