import ApiModel.Main
import ApiModel.Proofs.Ensures
import ApiModel.Proofs.Handles
import ApiModel.Proofs.Walks
import ApiModel.Proofs.Invariant
import ApiModel.Proofs.Steady
import ApiModel.Proofs.Registry
import ApiModel.Proofs.Types
import ApiModel.Proofs.Parameters
import ApiModel.Proofs.Methods
import ApiModel.Proofs.ComponentTypes
import ApiModel.Proofs.Aliases
import ApiModel.Proofs.Links
import ApiModel.Proofs.HostParameters
import ApiModel.Proofs.Runs
import ApiModel.Proofs.ClosedModel
import ApiModel.Proofs.ComponentNames
import ApiModel.Proofs.Ancestors
import ApiModel.Proofs.BaseTypes
import ApiModel.Proofs.Agreement
import ApiModel.Proofs.Nesting
import ApiModel.Proofs.Counts
import ApiModel.Proofs.Termination
import ApiModel.Proofs.Readers
import ApiModel.Proofs.Equality
import ApiModel.Proofs.Inheritance
import ApiModel.Proofs.Unification
import ApiModel.Proofs.Spans
import ApiModel.Proofs.Calls
import ApiModel.Proofs.Origins
import ApiModel.Proofs.Stages
import ApiModel.Proofs.BaseChains
import ApiModel.Proofs.BaseLoops
import ApiModel.Proofs.ErrorBodies
import ApiModel.Proofs.Errors
import ApiModel.Proofs.EmptyAncestry
import ApiModel.Proofs.Designation
import ApiModel.Proofs.Following
import ApiModel.Proofs.DistinctNames
import ApiModel.Proofs.Whereabouts
import ApiModel.Proofs.WrittenPointers
import ApiModel.Proofs.Sections
import ApiModel.Proofs.Reach
import ApiModel.Proofs.ReachedNodes
import ApiModel.Proofs.Memo
import ApiModel.Proofs.Plans
import ApiModel.Proofs.Reordering
import ApiModel.Proofs.Drafts
import ApiModel.Proofs.FirstPhase
import ApiModel.Proofs.Feasibility
import ApiModel.Proofs.Flattening
import ApiModel.Proofs.Twins
import ApiModel.Proofs.Counterparts
import ApiModel.Proofs.Mirrors
import ApiModel.Proofs.TwinMethods
import ApiModel.Proofs.TwinPhases
import ApiModel.Proofs.ComponentOrder
import ApiModel.Proofs.NamedTypes
import ApiModel.Proofs.Margins
import ApiModel.Proofs.OptionEffects
import ApiModel.Proofs.Retelling
import ApiModel.Proofs.RecordRoundTrip
import ApiModel.Proofs.SchemaRoundTrip
import ApiModel.Proofs.RoundTrip
import ApiModel.Proofs.HollowNodes
import ApiModel.Proofs.Ledgers
import ApiModel.Proofs.Abreast
import ApiModel.Proofs.RelaxedMethods
import ApiModel.Proofs.EmptyClasses
import ApiModel.Proofs.EnumNames
import ApiModel.Proofs.Rebuilding
import ApiModel.Proofs.CompositesInUse
import ApiModel.Proofs.EnumsInUse
import ApiModel.Proofs.Operations
import ApiModel.Proofs.ForwardTargets
import ApiModel.Proofs.HeaderNames
import ApiModel.Proofs.Crafting
import ApiModel.Proofs.FlattenedProperties
import ApiModel.Proofs.RecordedConstraints
import ApiModel.Proofs.ConstantFlags
import ApiModel.Proofs.BuiltParameters
import ApiModel.Proofs.FormFields
import ApiModel.Proofs.MergedParameters
import ApiModel.Proofs.NumberTexts
import ApiModel.Proofs.NumericBounds
import ApiModel.Proofs.SiblingConstraints
import ApiModel.Proofs.DistinctParameters
import ApiModel.Proofs.ConstantsAndEnums
import ApiModel.Proofs.BuiltHeaders
import ApiModel.Proofs.DeclaredEnums
import ApiModel.Proofs.ClientLinks
import ApiModel.Proofs.ByteArrays
import ApiModel.Proofs.BodyChecks
import ApiModel.Proofs.ResponseChecks
import ApiModel.Proofs.Passages
import ApiModel.Proofs.ReferenceChains
import ApiModel.Proofs.ParentChains
import ApiModel.Proofs.DeclaredHeaders
import ApiModel.Proofs.PropertyNames
import ApiModel.Proofs.ComponentPointers
