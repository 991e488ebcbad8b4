import StaticSite.Main
import StaticSite.Watch
import StaticSite.Proofs.Asset.Bookkeeping
import StaticSite.Proofs.Asset.Distinctness
import StaticSite.Proofs.Asset.Independence
import StaticSite.Proofs.Asset.Inlining
import StaticSite.Proofs.Asset.Trail
import StaticSite.Proofs.Asset.Unrolling
import StaticSite.Proofs.Asset.Visiting
import StaticSite.Proofs.Config.Validation
import StaticSite.Proofs.Expression.Integers
import StaticSite.Proofs.Expression.Lexemes
import StaticSite.Proofs.Expression.Recognition
import StaticSite.Proofs.Expression.RoundTrip
import StaticSite.Proofs.Expression.Soundness
import StaticSite.Proofs.Expression.Substitution
import StaticSite.Proofs.Expression.WrittenIntegers
import StaticSite.Proofs.Preview.Reaching
import StaticSite.Proofs.Site.Unused
import StaticSite.Proofs.Template.Balance
import StaticSite.Proofs.Template.BoundNames
import StaticSite.Proofs.Template.Chains
import StaticSite.Proofs.Template.Escaping
import StaticSite.Proofs.Template.UnusedNames
import StaticSite.Proofs.Text.Boundaries
import StaticSite.Proofs.Value.Mappings
import StaticSite.Proofs.Value.Objects
import StaticSite.Proofs.Value.Scopes
import StaticSite.Proofs.Watch.Turns
import StaticSite.Proofs.Watch.Turns
