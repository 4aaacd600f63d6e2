import ServerlessHarness.Library.Base64
import ServerlessHarness.Library.Utf16
import ServerlessHarness.Model.ControlPlane.Credentials

/-!
# Sealed credentials

A credential is encrypted under the first key of a ring, bound to its subject and its name, and
opened by trying every key of a ring. `Cipher` stands for AES-256-GCM of the runtime;
`Cipher.Ideal` is what is assumed of it. The random vector of a sealing is an input.
-/

set_option autoImplicit false

namespace ServerlessHarness.ControlPlane

open Library

abbrev Kek := List UInt8

/-- The cipher: from a vector, the bound data and the plaintext to the ciphertext and its tag, and
back. -/
structure Cipher where
  encrypt : Kek → (iv aad plain : List UInt8) → List UInt8 × List UInt8
  decrypt : Kek → (iv aad ct tag : List UInt8) → Option (List UInt8)

/-- An ideal authenticated cipher: what was encrypted is decrypted, and only under its key and with
the data to which it was bound. -/
structure Cipher.Ideal (c : Cipher) : Prop where
  correct : ∀ k iv aad p, c.decrypt k iv aad (c.encrypt k iv aad p).1 (c.encrypt k iv aad p).2 =
    some p
  authentic : ∀ k k' iv aad aad' p q,
    c.decrypt k' iv aad' (c.encrypt k iv aad p).1 (c.encrypt k iv aad p).2 = some q →
      k' = k ∧ aad' = aad

/-- SRCLINE: envelope.ts:67-69 -/
def credentialAad (subject name : String) : List UInt8 :=
  utf8 (subject.toList ++ '|' :: name.toList)

/-- `bytes.toString('base64url')` -/
def urlText (bytes : List UInt8) : List Char := (base64url bytes).map fun b => Char.ofNat b.toNat

/-- `Buffer.from(text, 'base64url')`, which reads the low byte of each unit. -/
def urlBytes (text : List Char) : List UInt8 := unbase64 ((ofChars text).map UInt16.toUInt8)

/-- `v1.<iv>.<tag>.<ciphertext>`, under the first key.
SRCLINE: envelope.ts:72-87 -/
def sealCredential (c : Cipher) (keks : List Kek) (iv : List UInt8)
    (subject name plaintext : String) :
    Except String String :=
  match keks.head? with
  | none => .error "cannot seal a credential: no KEK is configured"
  | some primary =>
    let (ct, tag) := c.encrypt primary iv (credentialAad subject name) (utf8 plaintext.toList)
    .ok (String.ofList (['.'].intercalate ["v1".toList, urlText iv, urlText tag, urlText ct]))

/-- SRCLINE: envelope.ts:97-100 -/
structure Opened where
  plaintext : String
  keyIndex : ℕ
deriving DecidableEq, Repr

/-- SRCLINE: envelope.ts:111-136 -/
def openCredential (c : Cipher) (keks : List Kek) (subject name : String) (sealedValue : String) :
    Except String Opened :=
  match sealedValue.toList.splitOn '.' with
  | [version, iv, tag, ct] =>
    if version ≠ "v1".toList then
      .error ("unsupported sealed credential version '" ++ String.ofList version ++ "'")
    else
      let opened := keks.zipIdx.findSome? fun e =>
        (c.decrypt e.1 (urlBytes iv) (credentialAad subject name) (urlBytes ct) (urlBytes tag)).map
          fun plain => (⟨String.ofList (decodeText plain), e.2⟩ : Opened)
      match opened with
      | some opened => .ok opened
      | none => .error ("failed to decrypt credential '" ++ name ++ "'")
  | _ => .error "sealed credential is malformed"

/-! ## Rotations and writes -/

/-- A credential that was written, with the key that was first then. -/
structure Written where
  subject : String
  name : String
  plaintext : String
  key : Kek
  sealedValue : String
deriving DecidableEq, Repr

/-- The ring in the configuration, and all that was written so far. -/
structure Sealings where
  ring : List Kek
  written : List Written

inductive SealAction where
  | configure (ring : List Kek)
  | write (subject name plaintext : String) (iv : List UInt8)

/-- A write seals under the first key of the ring; a name that is not valid is refused before. -/
def Sealings.step (c : Cipher) (s : Sealings) : SealAction → Sealings
  | .configure ring => { s with ring }
  | .write subject name plaintext iv =>
    match validateCredentialName name, s.ring.head?,
      sealCredential c s.ring iv subject name plaintext with
    | .ok name, some key, .ok sealedValue =>
      { s with written := s.written ++ [⟨subject, name, plaintext, key, sealedValue⟩] }
    | _, _, _ => s

def Sealings.run (c : Cipher) (actions : List SealAction) : Sealings :=
  actions.foldl (Sealings.step c) ⟨[], []⟩

end ServerlessHarness.ControlPlane
