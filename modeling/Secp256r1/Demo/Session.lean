import Secp256r1.Demo.Arguments
import Secp256r1.Demo.Log
import Secp256r1.Engine
import Secp256r1.Nonce.Random
import Secp256r1.Text.Blank
import Secp256r1.Text.Quoted

/-!
# The demonstration

Alice signs a digest and Bob verifies it with his copy of her public key.  The session
hashes the message if there is one, picks the nonce strategy, and keeps a log.

* `Session.exchange` — the session of given settings; it ends with a verdict or an error text.
* `Request.carryOut` — what a command line asked for: exit code, standard output and log
  records.  Like signing, both get a limit and answer `none` if it is too low.
-/

set_option autoImplicit false

namespace Secp256r1

/-- The text shown to people. -/
def Hex.DecodeError.message : Hex.DecodeError → String
  | oddLength => "Odd number of digits"
  | invalidDigit octet position =>
    "Invalid character " ++ Quoted.character (Char.ofNat octet.toNat) ++ " at position " ++
      toString position

namespace Demo

/-- A session keeps a log, may fail with a text, and may need a higher limit. -/
abbrev Session := ExceptT String (StateT (List Entry) Option)

namespace Session

variable {γ α : Type}

/-- Adds a record to the log. -/
def log (level : Level) (text : String) : Session Unit := modify (· ++ [⟨level, text⟩])

/-- Logs octets in hexadecimal under a label. -/
def logHex (label : String) (bs : List UInt8) : Session Unit :=
  log .info (label ++ ":\n    " ++ Hex.encode bs)

/-- Goes on with a result, or fails with the text of its error. -/
def check (r : Except Error α) : Session α := ExceptT.mk (pure (r.mapError Error.message))

/-- Goes on with an answer that was found within the limit. -/
def found (r : Option α) : Session α := ExceptT.lift (StateT.lift r)

/-- A text without every `0x` at its start. -/
def dropMarkers : List Char → List Char
  | '0' :: 'x' :: rest => dropMarkers rest
  | cs => cs

/-- The octets of a hexadecimal argument, without white space around it and markers in front. -/
def decodeHex (flag value : String) : Session (List UInt8) :=
  let digits := String.ofList (dropMarkers (Blank.trim value.toList))
  match Hex.decode digits.toUTF8.toList with
  | .ok bs => pure bs
  | .error e => throw (flag ++ ": invalid hex: " ++ e.message)

/-- The digest to sign: that of the message if there is one. -/
def digest (s : Settings) : Session Digest := do
  match s.message? with
  | some text =>
    let message := text.toUTF8.toList
    log .debug s!"hashed {message.length} message bytes"
    return ⟨sha256.digest message⟩
  | none => check (Digest.decode (← decodeHex "--digest" s.digest))

/-- Alice signs. -/
def aliceSigns {ν σ : Type} (limit : Nat) (source : NonceSource ν σ) (nonces : ν) (s : Settings)
    (digest : Digest) : Session Signature := do
  log .info "Alice's signature generation"
  let key ← check (SecretKey.decode (← decodeHex "--private-key" s.privateKey))
  let engine : Engine ν σ Unit := ⟨source, .software, nonces, ()⟩
  let (r, _) ← found (engine.signWithNonceCount limit digest key)
  let (signature, drawn) ← check r
  log .debug s!"{drawn} nonce candidate(s) drawn"
  logHex "Signature" signature.encode.toList
  return signature

/-- Bob verifies what came over the wire. -/
def bobVerifies (s : Settings) (digest : Digest) (wire : List UInt8) : Session Bool := do
  log .info "Bob's message verification"
  let bs ← decodeHex "--public-key" s.publicKey
  let key ← check (if bs.length = Curve.rawPublicKeySize then PublicKey.ofRaw bs
    else PublicKey.decode bs)
  logHex "Alice's public key" key.encode.toList
  let signature ← check (Signature.decode wire)
  let engine : Engine Unit Rfc6979 Unit := ⟨.rfc6979, .software, (), ()⟩
  let valid ← check (engine.verify digest key signature).1
  if valid then log .info "Signature is valid. Message is authentic."
  else log .warn "Signature is invalid. Message is not authentic."
  return valid

/-- The session of given settings. -/
def exchange (limit : Nat) (gen : Generator γ) (g : γ) (s : Settings) : Session Bool := do
  let digest ← digest s
  logHex "Digest" digest.octets.toList
  let signature ← match s.nonce with
    | .deterministic => aliceSigns limit .rfc6979 () s digest
    | .random => aliceSigns limit (.random gen) g s digest
    | .hedged => aliceSigns limit (.hedged gen) g s digest
  let wire := signature.encode.toList
  if s.tamper then
    log .warn "Signature tampered in transit"
    bobVerifies s digest (wire.modifyHead (· ^^^ 0x01))
  else
    bobVerifies s digest wire

/-- The session with its first and last records; it succeeds if the signature is valid. -/
def whole (limit : Nat) (gen : Generator γ) (g : γ) (s : Settings) : Session Bool := do
  log .info "ECDSA P-256 demonstration started"
  try
    let valid ← exchange limit gen g s
    if valid then log .info "Demonstration finished successfully"
    return valid
  catch text =>
    log .error text
    return false

end Session

/-- What a run leaves behind. -/
structure Report where
  exitCode : UInt32
  stdout : String
  /-- The records that are shown. -/
  entries : List Entry
deriving DecidableEq, Repr

/-- The name and version of the program. -/
def versionText : String := "ecsig-demo 0.3.0\n"

/-- A short account of the options. -/
def helpText : String :=
  "Sign a digest as Alice, verify it as Bob\n\n" ++
  "Usage: ecsig-demo [OPTIONS]\n\n" ++
  "Options:\n" ++
  "      --private-key <PRIVATE_KEY>  Alice's 32-byte private key, hex\n" ++
  "      --public-key <PUBLIC_KEY>    Bob's copy of Alice's public key, hex\n" ++
  "      --digest <DIGEST>            32-byte digest to sign, hex\n" ++
  "      --message <MESSAGE>          Sign SHA-256 of this text instead of --digest\n" ++
  "      --nonce <NONCE>              Nonce strategy [deterministic, random, hedged]\n" ++
  "      --tamper                     Flip one bit of the signature before Bob verifies it\n" ++
  "  -h, --help                       Print help\n" ++
  "  -V, --version                    Print version\n"

variable {γ : Type}

/-- Carries a request out, with random octets from a generator. -/
def Request.carryOut (limit : Nat) (gen : Generator γ) (g : γ) (verbosity : Verbosity) :
    Request → Option Report
  | .version => some ⟨0, versionText, []⟩
  | .help => some ⟨0, helpText, []⟩
  | .run s => do
    let (verdict, entries) ← (Session.whole limit gen g s).run []
    let exitCode := if verdict.toOption = some true then 0 else 1
    return ⟨exitCode, "", entries.filter (·.isShown verbosity)⟩

end Demo

end Secp256r1
