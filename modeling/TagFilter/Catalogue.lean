import TagFilter.Text.Quoted

/-!
# The catalogue of public names

The names under which the capabilities of the package are offered to its users.

* `Catalogue.names`, `Catalogue.partNames`, `Catalogue.standingNames` — the names of capabilities,
  those of the parts of the package, and those that every package has;
* `Catalogue.find` — a name, if it is offered; `Catalogue.Unknown.message` says that it is not.
-/

namespace TagFilter.Catalogue

/-- The name of the package. -/
def package : String := "tagexpr"

/-- The public names. -/
def names : List String :=
  ["tokenize", "parse", "parse_tokens", "evaluate", "create_evaluator", "get_filter_func",
    "identifier", "and_", "or_", "not_", "Token", "Expression", "IdentifierExpression",
    "AndExpression", "OrExpression", "NotExpression", "expression_to_json",
    "expression_from_json", "expression_depth", "TokenType", "ExpressionType",
    "ExpressionError", "TokenizerError", "ParseError", "ExpressionDepthError", "__version__"]

/-- The names of the parts that the package is made of. -/
def partNames : List String :=
  ["const", "errors", "tokenizer", "parser", "evaluator", "_enums", "_models", "_cli"]

/-- The names that stand for what every package tells about itself, and for what can be done with
every package. -/
def standingNames : List String :=
  ["__name__", "__doc__", "__package__", "__loader__", "__spec__", "__path__", "__file__",
    "__cached__", "__builtins__", "__getattr__", "__annotations__", "__class__", "__delattr__",
    "__dict__", "__dir__", "__eq__", "__format__", "__ge__", "__getattribute__",
    "__getstate__", "__gt__", "__hash__", "__init__", "__init_subclass__", "__le__", "__lt__",
    "__ne__", "__new__", "__reduce__", "__reduce_ex__", "__repr__", "__setattr__", "__sizeof__",
    "__str__", "__subclasshook__"]

/-- A name that is not offered. -/
structure Unknown where
  name : String
  deriving DecidableEq, Repr

/-- What is said about a name that is not offered. -/
def Unknown.message (e : Unknown) : String :=
  "module " ++ Text.quoted package ++ " has no attribute " ++ Text.quoted e.name

/-- Looks up a name. -/
def find (name : String) : Except Unknown Unit :=
  if name ∈ names ++ partNames ++ standingNames then .ok () else .error ⟨name⟩

end TagFilter.Catalogue
