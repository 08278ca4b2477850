import Retrieval.Command.Basic
import Retrieval.File.Tree
import Retrieval.Main
import Retrieval.Proofs.Except
import Retrieval.Run.Firing
import Retrieval.Run.Pool
import Retrieval.Run.Stored
import Retrieval.Proofs.Dict
import Retrieval.Proofs.Model.Loading
import Retrieval.Proofs.Text.Positional
import Retrieval.Proofs.Model.WellFormed
import Retrieval.Proofs.Model.Path
import Retrieval.Proofs.Query.JoinGraph
import Retrieval.Proofs.Query.Selection
import Retrieval.Proofs.Query.Parts
import Retrieval.Proofs.Query.KeyFilter
import Retrieval.Proofs.Query.Navigation
import Retrieval.Proofs.Number.Layout
import Retrieval.Proofs.Sql.Quoting
import Retrieval.Proofs.Sql.Alike
import Retrieval.Proofs.Query.Quoting
import Retrieval.Proofs.Query.Isolation
import Retrieval.Proofs.Sql.Scope
import Retrieval.Proofs.Query.Scope
import Retrieval.Proofs.Sql.Reader
import Retrieval.Proofs.Text.Bytes
import Retrieval.Proofs.Query.Conjunction
import Retrieval.Proofs.Sql.ReaderSound
import Retrieval.Proofs.Query.Search
import Retrieval.Proofs.Query.Naming
import Retrieval.Proofs.Query.Membership
import Retrieval.Proofs.Field.Canonical
import Retrieval.Proofs.Sql.Place
import Retrieval.Proofs.Model.Binding
import Retrieval.Proofs.Sql.Lexeme
import Retrieval.Proofs.Sql.Grammar
import Retrieval.Proofs.Sql.Sentence
import Retrieval.Proofs.Query.Sentence
import Retrieval.Proofs.Query.PathMeaning
import Retrieval.Proofs.Query.JoinToken
import Retrieval.Proofs.Query.FreeText
import Retrieval.Proofs.Query.Blame
import Retrieval.Proofs.Run.Basic
import Retrieval.Proofs.Run.ResultSet
import Retrieval.Proofs.Run.Firing
import Retrieval.Proofs.Query.DefaultFields
import Retrieval.Proofs.Json.Token
import Retrieval.Proofs.Json.Tree
import Retrieval.Proofs.Json.RoundTrip
import Retrieval.Proofs.Json.Shape
import Retrieval.Proofs.Request.RoundTrip
import Retrieval.Proofs.Query.JoinOrder
import Retrieval.Proofs.Query.MemberOrder
import Retrieval.Proofs.Model.Template
import Retrieval.Proofs.Text.Substitution
import Retrieval.Proofs.Query.FirstFailure
import Retrieval.Proofs.Run.HookOrder
import Retrieval.Proofs.Query.JoinText
import Retrieval.Proofs.Query.Pattern
import Retrieval.Proofs.Run.Label
import Retrieval.Proofs.Text.Expansion
import Retrieval.Proofs.Query.Redirection
import Retrieval.Proofs.Text.Spacing
