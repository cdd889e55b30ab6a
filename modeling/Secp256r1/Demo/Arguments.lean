/-!
# Arguments of the demonstration

The command line is a list of options.  Those that take a value take it after `=` or from the
next argument, which must not itself look like an option; every option may be given once.

* `Settings` — what the demonstration does.
* `Request.ofArguments` — reads a command line from left to right; the first fault ends it,
  and so does a request for the version or for help.
-/

set_option autoImplicit false

namespace Secp256r1

namespace Demo

/-- How nonces are made. -/
inductive NonceMode where
  | deterministic
  | random
  | hedged
deriving DecidableEq, Repr

/-- The mode that a name stands for. -/
def NonceMode.ofName? : String → Option NonceMode
  | "deterministic" => some deterministic
  | "random" => some random
  | "hedged" => some hedged
  | _ => none

/-- What the demonstration does. -/
structure Settings where
  privateKey : String
  publicKey : String
  digest : String
  /-- A text to hash in place of the digest. -/
  message? : Option String
  nonce : NonceMode
  tamper : Bool
deriving DecidableEq, Repr

/-- An option that takes a value. -/
inductive ValueOption where
  | privateKey
  | publicKey
  | digest
  | message
  | nonce
deriving DecidableEq, Repr

/-- The option that a name stands for. -/
def ValueOption.ofName? : String → Option ValueOption
  | "private-key" => some privateKey
  | "public-key" => some publicKey
  | "digest" => some digest
  | "message" => some message
  | "nonce" => some nonce
  | _ => none

/-- Why a command line is refused. -/
inductive UsageError where
  | unexpectedArgument (argument : String)
  | repeatedOption (argument : String)
  | missingValue (argument : String)
  | unexpectedValue (argument : String)
  | invalidValue (argument : String)
  | conflict
deriving DecidableEq, Repr

/-- The text shown to people. -/
def UsageError.message : UsageError → String
  | unexpectedArgument a => s!"unexpected argument '{a}' found"
  | repeatedOption a => s!"the argument '{a}' cannot be used multiple times"
  | missingValue a => s!"a value is required for '{a}' but none was supplied"
  | unexpectedValue a => s!"unexpected value for '{a}' found; no more were expected"
  | invalidValue a => s!"invalid value for '{a}' [possible values: deterministic, random, hedged]"
  | conflict => "the argument '--digest' cannot be used with '--message'"

/-- The options given so far. -/
structure Given where
  privateKey? : Option String := none
  publicKey? : Option String := none
  digest? : Option String := none
  message? : Option String := none
  nonce? : Option NonceMode := none
  tamper : Bool := false
deriving DecidableEq, Repr

/-- A value given for the first time. -/
def once {α : Type} (argument : String) (before : Option α) (value : α) :
    Except UsageError (Option α) :=
  match before with
  | some _ => .error (.repeatedOption argument)
  | none => .ok (some value)

namespace Given

/-- The options after one more with a value. -/
def put (g : Given) (argument value : String) : ValueOption → Except UsageError Given
  | .privateKey => (once argument g.privateKey? value).map fun v => { g with privateKey? := v }
  | .publicKey => (once argument g.publicKey? value).map fun v => { g with publicKey? := v }
  | .digest => (once argument g.digest? value).map fun v => { g with digest? := v }
  | .message => (once argument g.message? value).map fun v => { g with message? := v }
  | .nonce => do
    match NonceMode.ofName? value with
    | none => throw (.invalidValue argument)
    | some mode => (once argument g.nonce? mode).map fun v => { g with nonce? := v }

/-- Fills in what was not given. -/
def settings (g : Given) : Except UsageError Settings :=
  if g.digest?.isSome && g.message?.isSome then .error .conflict
  else .ok
    { privateKey := g.privateKey?.getD
        "1111111111111111111111111111111111111111111111111111111111111111"
      publicKey := g.publicKey?.getD
        ("040217e617f0b6443928278f96999e69a23a4f2c152bdf6d6cdf66e5b80282d4ed" ++
          "194a7debcb97712d2dda3ca85aa8765a56f45fc758599652f2897c65306e5794")
      digest := g.digest?.getD
        "42ba8354db263a6a5a9f74d6b7ceb4c962a3d8fd58a41969e521eb0222455415"
      message? := g.message?
      nonce := g.nonce?.getD .deterministic
      tamper := g.tamper }

end Given

/-- What a command line asks for. -/
inductive Request where
  | run (settings : Settings)
  | version
  | help
deriving DecidableEq, Repr

/-- An argument by its form. -/
inductive Form where
  /-- `--name` or `--name=value`. -/
  | long (name : String) (value? : Option String)
  /-- `-x…`, with the first letter. -/
  | short (letter : Char)
  /-- `--`, after which nothing is an option. -/
  | separator
  /-- Anything else, a lone `-` included. -/
  | plain
deriving DecidableEq, Repr

/-- The part before the first `=` and the part after it. -/
def splitValue (cs : List Char) : String × Option String :=
  let name := String.ofList (cs.takeWhile (· ≠ '='))
  match cs.dropWhile (· ≠ '=') with
  | [] => (name, none)
  | _ :: value => (name, some (String.ofList value))

/-- The form of an argument. -/
def Form.ofArgument (argument : String) : Form :=
  match argument.toList with
  | ['-', '-'] => separator
  | '-' :: '-' :: rest => long (splitValue rest).1 (splitValue rest).2
  | '-' :: letter :: _ => short letter
  | _ => plain

namespace Request

/-- A request that an option without a value makes at once. -/
def immediate (argument : String) (request : Request) : Option String → Except UsageError Request
  | none => .ok request
  | some _ => .error (.unexpectedValue argument)

/-- Reads the arguments that are left. -/
def read : List String → Given → Except UsageError Request
  | [], g => g.settings.map run
  | argument :: rest, g =>
    match Form.ofArgument argument with
    | .plain => .error (.unexpectedArgument argument)
    | .separator =>
      match rest with
      | [] => g.settings.map run
      | extra :: _ => .error (.unexpectedArgument extra)
    | .short 'V' => .ok version
    | .short 'h' => .ok help
    | .short _ => .error (.unexpectedArgument argument)
    | .long "version" value? => immediate argument version value?
    | .long "help" value? => immediate argument help value?
    | .long "tamper" value? =>
      if value?.isSome then .error (.unexpectedValue argument)
      else if g.tamper then .error (.repeatedOption argument)
      else read rest { g with tamper := true }
    | .long name value? =>
      match ValueOption.ofName? name, value? with
      | none, _ => .error (.unexpectedArgument argument)
      | some option, some value => (g.put argument value option).bind (read rest)
      | some option, none =>
        match rest with
        | [] => .error (.missingValue argument)
        | value :: rest =>
          if Form.ofArgument value = .plain then (g.put argument value option).bind (read rest)
          else .error (.missingValue argument)

/-- Reads a command line. -/
def ofArguments (arguments : List String) : Except UsageError Request := read arguments {}

end Request

end Demo

end Secp256r1
