import ESignSoft.Contracts.SendRequest

/-!
# Adopted signatures as they arrive

The check a signature image passes before it is stored: a PNG data URL, of bounded size in bytes and in
declared pixels.  How the runtime decodes base64 is a parameter.
-/

namespace ESignSoft.Signing

open ESignSoft.Lib.JsText ESignSoft.Contracts

def PNG_SIGNATURE : List UInt8 := [0x89, 0x50, 0x4E, 0x47, 0x0D, 0x0A, 0x1A, 0x0A]

def MAX_SIGNATURE_PIXELS : Nat := 4000 * 4000

def MAX_SIGNATURE_BYTES : Nat := 3 * 1024 * 1024

def isPng (bytes : List UInt8) : Bool := PNG_SIGNATURE.isPrefixOf bytes

def readUInt32BE (bytes : List UInt8) (offset : Nat) : Nat :=
  ((bytes.drop offset).take 4).foldl (fun n b => n * 256 + b.toNat) 0

/-- The dimensions a PNG declares in its `IHDR`. -/
def pngDimensions (bytes : List UInt8) : Option (Nat × Nat) :=
  if !isPng bytes || decide (bytes.length < 24) then none
  else if (bytes.drop 12).take 4 != [0x49, 0x48, 0x44, 0x52] then none
  else
    let width := readUInt32BE bytes 16
    let height := readUInt32BE bytes 20
    if width = 0 ∨ height = 0 then none else some (width, height)

def decodeSignaturePng (fromBase64 : JsString → List UInt8) (dataUrl : JsString) :
    Option (List UInt8) :=
  match dataUrl.findIdx? (fun u => u == 0x2C) with
  | none => none
  | some comma =>
      if toLowerCase (dataUrl.take comma) != js "data:image/png;base64" then none
      else
        let bytes := fromBase64 (dataUrl.drop (comma + 1))
        if bytes.length = 0 ∨ bytes.length > MAX_SIGNATURE_BYTES then none
        else if !isPng bytes then none
        else
          match pngDimensions bytes with
          | none => none
          | some (width, height) =>
              if width * height > MAX_SIGNATURE_PIXELS then none else some bytes

end ESignSoft.Signing
