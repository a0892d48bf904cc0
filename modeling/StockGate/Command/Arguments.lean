import StockGate.Text.Digit

namespace StockGate.Command

structure Arguments where
  config : Option String := none
  user : Option String := none
  product : String
  quantity : UInt32
  deriving DecidableEq

inductive ArgumentFault where
  /-- Not a fault, but the end of reading: the user asks for help. -/
  | help
  | unknownOption
  | valueMissing
  | valueUnexpected
  | emptyPath
  | repeated
  | notQuantity
  | tooMany
  | tooFew
  deriving DecidableEq

def ArgumentFault.message : ArgumentFault → String
  | .help => "help asked for"
  | .unknownOption => "unknown option"
  | .valueMissing => "an option lacks its value"
  | .valueUnexpected => "an option has a value that it does not take"
  | .emptyPath => "the path of the configuration is empty"
  | .repeated => "an option is repeated"
  | .notQuantity => "the quantity is no whole number of 32 bits"
  | .tooMany => "too many arguments"
  | .tooFew => "product and quantity are required"

inductive OptionName where
  | config
  | user
  deriving DecidableEq

/-- What has been read so far. -/
structure Reading where
  config : Option String := none
  user : Option String := none
  product : Option String := none
  quantity : Option UInt32 := none

def helpText : List String := [
  "Validate a cart mutation against the inventory authority",
  "",
  "Usage: inventory-gate [OPTIONS] <PRODUCT_ID> <QUANTITY>",
  "",
  "Arguments:",
  "  <PRODUCT_ID>  Product to validate",
  "  <QUANTITY>    Quantity the cart wants to add",
  "",
  "Options:",
  "  -c, --config <CONFIG>  TOML configuration file (defaults apply when omitted)",
  "  -u, --user <USER>      Caller user id used for flag targeting",
  "  -h, --help             Print help"]

/-- A numeral with an optional sign, in the range of 32 bits. -/
def quantity? (s : String) : Option UInt32 :=
  let value :=
    match s.toList with
    | '+' :: cs => Text.numeral? cs
    | '-' :: cs => (Text.numeral? cs).filter (· = 0)
    | cs => Text.numeral? cs
  (value.filter (· < UInt32.size)).map UInt32.ofNat

namespace Reading

def positional (r : Reading) (s : String) : Except ArgumentFault Reading :=
  match r.product, r.quantity with
  | none, _ => .ok { r with product := some s }
  | some _, none =>
    match quantity? s with
    | some n => .ok { r with quantity := some n }
    | none => .error .notQuantity
  | some _, some _ => .error .tooMany

def option (r : Reading) (name : OptionName) (value : String) : Except ArgumentFault Reading :=
  match name, r.config, r.user with
  | .config, none, _ =>
    if value = "" then .error .emptyPath else .ok { r with config := some value }
  | .user, _, none => .ok { r with user := some value }
  | _, _, _ => .error .repeated

def done (r : Reading) : Except ArgumentFault Arguments :=
  match r.product, r.quantity with
  | some product, some quantity => .ok ⟨r.config, r.user, product, quantity⟩
  | _, _ => .error .tooFew

end Reading

/-- What one argument is, as far as it alone tells. -/
inductive Argument where
  | positional (s : String)
  | option (name : OptionName) (value : Option String)
  | endOfOptions
  | fault (f : ArgumentFault)
  deriving DecidableEq

def longOption (name : List Char) (value : Option String) : Argument :=
  if name = "config".toList then .option .config value
  else if name = "user".toList then .option .user value
  else if name = "help".toList then
    .fault (if value.isSome then .valueUnexpected else .help)
  else .fault .unknownOption

/-- A value right after a short option may stand behind an equals sign. -/
def attached : List Char → Option String
  | [] => none
  | '=' :: cs => some (String.ofList cs)
  | cs => some (String.ofList cs)

def shortOption (c : Char) (rest : List Char) : Argument :=
  if c = 'c' then .option .config (attached rest)
  else if c = 'u' then .option .user (attached rest)
  else if c = 'h' then .fault .help
  else .fault .unknownOption

def Argument.of (s : String) : Argument :=
  match s.toList with
  | ['-', '-'] => .endOfOptions
  | '-' :: '-' :: cs =>
    let name := cs.takeWhile (· ≠ '=')
    longOption name <|
      match cs.drop name.length with
      | _ :: value => some (String.ofList value)
      | [] => none
  | '-' :: c :: cs => shortOption c cs
  | _ => .positional s

/-- Options may stand between the product and the quantity, but after `--` nothing is an
option. An option's value is the next argument, unless that is an option too. -/
def readFrom (r : Reading) : List String → Except ArgumentFault Arguments
  | [] => r.done
  | s :: rest =>
    match Argument.of s with
    | .fault f => .error f
    | .endOfOptions => (rest.foldlM Reading.positional r).bind Reading.done
    | .positional s => (r.positional s).bind (readFrom · rest)
    | .option name (some value) => (r.option name value).bind (readFrom · rest)
    | .option name none =>
      match rest with
      | [] => .error .valueMissing
      | value :: rest =>
        match Argument.of value with
        | .positional _ => (r.option name value).bind (readFrom · rest)
        | _ => .error .valueMissing

def Arguments.parse (args : List String) : Except ArgumentFault Arguments :=
  readFrom {} args

end StockGate.Command
