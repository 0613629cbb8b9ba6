import ESignSoft.Lib.JsDate
import Mathlib.Algebra.Order.Field.Rat

/-!
# Fields and what a signer may enter into them

The field layout of a template and the one table of rules both the signing app and the server check
entered values against.  `Platform` stands for what comes with the runtime and the validation library:
their notion of an email address and of a UUID, and the Unicode letter and mark classes.
-/

namespace ESignSoft.Contracts

open ESignSoft.Lib.JsText ESignSoft.Lib.JsDate

structure Platform where
  email : JsString → Bool
  uuid : JsString → Bool
  isLetter : Nat → Bool
  isMark : Nat → Bool

inductive FieldType
  | signature
  | initial
  | stamp
  | date
  | name
  | first_name
  | last_name
  | email
  | company
  | title
  | text
  | number
  | phone
  | address
  | checkbox
  | dropdown
  | radio
  | date_input
  deriving DecidableEq, Repr

/-! ## Character classes -/

/-- The typographic marks the sealed PDF prints by transliterating them. -/
def typographicMarks : List UInt16 :=
  [0x2018, 0x2019, 0x201C, 0x201D, 0x2013, 0x2014, 0x2026, 0x2022, 0x02BB, 0x02BC]

def isPrintable (u : UInt16) : Bool :=
  (0x20 ≤ u && u ≤ 0x7E) || (0xA0 ≤ u && u ≤ 0xFF) || typographicMarks.contains u

/-- `PRINTABLE`. -/
def PRINTABLE (s : JsString) : Bool := s.all isPrintable

def isLatinLetter (u : UInt16) : Bool :=
  (0x41 ≤ u && u ≤ 0x5A) || (0x61 ≤ u && u ≤ 0x7A) || (0xC0 ≤ u && u ≤ 0xD6) ||
    (0xD8 ≤ u && u ≤ 0xF6) || (0xF8 ≤ u && u ≤ 0xFF)

/-- Space, `'`, the grave accent, the four typographic apostrophes, full stop and hyphen. -/
def nameJoins : List UInt16 := [0x20, 0x27, 0x60, 0x2018, 0x2019, 0x02BB, 0x02BC, 0x2E, 0x2D]

/-- `PERSON_NAME`: letters and joins, with at least one letter. -/
def PERSON_NAME (s : JsString) : Bool :=
  s.any isLatinLetter && s.all fun u => isLatinLetter u || nameJoins.contains u

/-- `^-?\d+(?:[.,]\d+)?$`. -/
def isNumber (s : JsString) : Bool :=
  let unsigned := if s.head? == some 0x2D then s.tail else s
  let whole := unsigned.takeWhile isDigit
  let rest := unsigned.dropWhile isDigit
  !whole.isEmpty &&
    match rest with
    | [] => true
    | mark :: fraction => (mark == 0x2E || mark == 0x2C) && !fraction.isEmpty && fraction.all isDigit

/-- `^\+?[\d ()-]+$`, with 7 to 15 digits. -/
def isPhone (s : JsString) : Bool :=
  let body := if s.head? == some 0x2B then s.tail else s
  let digits := s.countP isDigit
  !body.isEmpty && body.all (fun u => isDigit u || u == 0x20 || u == 0x28 || u == 0x29 || u == 0x2D) &&
    7 ≤ digits && digits ≤ 15

def DATE_INPUT_MIN : JsString := js "1900-01-01"

def DATE_INPUT_MAX : JsString := js "2200-12-31"

/-- `YYYY-MM-DD` naming a day that exists, inside the accepted range. -/
def isCalendarDate (value : JsString) : Bool :=
  let year := value.take 4
  let month := (value.drop 5).take 2
  let date := (value.drop 8)
  let shape := value.length == 10 && year.all isDigit && month.all isDigit && date.all isDigit &&
    value[4]? == some 0x2D && value[7]? == some 0x2D
  if !shape || lt value DATE_INPUT_MIN || lt DATE_INPUT_MAX value then false
  else
    let y : Int := digitsValue year
    let mo : Int := digitsValue month
    let d : Int := digitsValue date
    match dateUTC y (mo - 1) d with
    | none => false
    | some day => getUTCFullYear day == y && getUTCMonth day == mo - 1 && getUTCDate day == d

/-! ## The rules -/

structure FieldValueRule where
  max : Nat
  valid : JsString → Bool
  /-- Which code points survive typing, each given with the units that spell it. -/
  chars : Option (Nat × JsString → Bool)
  hint : JsString

def printable (max : Nat) : FieldValueRule where
  max := max
  valid := PRINTABLE
  chars := none
  hint := js "Latin letters, numbers and punctuation only"

/-- `NAME_CHAR`, matched with the `u` flag: by code point. -/
def NAME_CHAR (P : Platform) (ch : Nat × JsString) : Bool :=
  P.isLetter ch.1 || P.isMark ch.1 ||
    [0x20, 0x27, 0x60, 0x2018, 0x2019, 0x2E, 0x2D].contains ch.1

def personName (P : Platform) (max : Nat) : FieldValueRule where
  max := max
  valid := PERSON_NAME
  chars := some (NAME_CHAR P)
  hint := js "Latin letters only — spaces, hyphens and apostrophes are fine"

def choice : FieldValueRule where
  max := 120
  valid := fun _ => true
  chars := none
  hint := js "Choose one of the offered options"

/-- What a signer may enter into each box; `none` for what is never typed. -/
def FIELD_VALUE_RULES (P : Platform) : FieldType → Option FieldValueRule
  | .signature | .initial | .stamp | .date => none
  | .name => some (personName P 100)
  | .first_name => some (personName P 60)
  | .last_name => some (personName P 60)
  | .email => some
      { max := 254
        valid := P.email
        chars := some fun ch => ch.2.any fun u => !isWhiteSpace u
        hint := js "An email address, like name@example.com" }
  | .company => some (printable 200)
  | .title => some (printable 120)
  | .text => some (printable 500)
  | .number => some
      { max := 30
        valid := isNumber
        chars := some fun ch => ch.2.any fun u => isDigit u || u == 0x2E || u == 0x2C || u == 0x2D
        hint := js "Numbers only, like 42 or 3.5" }
  | .phone => some
      { max := 30
        valid := isPhone
        chars := some fun ch => ch.2.any fun u =>
          isDigit u || u == 0x2B || u == 0x28 || u == 0x29 || u == 0x20 || u == 0x2D
        hint := js "A phone number, like +998 90 123 45 67" }
  | .address => some (printable 300)
  | .checkbox => some
      { max := 4
        valid := fun v => v == js "true"
        chars := none
        hint := js "Tick the box" }
  | .dropdown | .radio => some choice
  | .date_input => some
      { max := 10
        valid := isCalendarDate
        chars := none
        hint := js "A date, picked from the calendar" }

/-- Why a value cannot go into a box, in words; `none` when it can. -/
def fieldValueProblem (P : Platform) (type : FieldType) (value : JsString) : Option JsString :=
  match FIELD_VALUE_RULES P type with
  | none => none
  | some rule =>
      let v := trim value
      if v = [] then none
      else if v.length > rule.max || !rule.valid v then some rule.hint
      else none

/-- A value as the box holds it while the signer types. -/
def sanitizeFieldInput (P : Platform) (type : FieldType) (raw : JsString) : JsString :=
  match FIELD_VALUE_RULES P type with
  | none => raw
  | some rule =>
      let kept :=
        match rule.chars with
        | some chars => ((codePoints raw).filter chars).flatMap Prod.snd
        | none => raw
      kept.take rule.max

/-! ## The layout -/

/-- One placed field, in fractions of the page with a top-left origin. -/
structure TemplateField where
  id : JsString
  type : FieldType
  page : Int
  x : ℚ
  y : ℚ
  w : ℚ
  h : ℚ
  required : Bool
  recipientKey : JsString
  label : Option JsString
  options : Option (List JsString)
  deriving DecidableEq

/-- `Number.MAX_SAFE_INTEGER`; the library takes no integer above it. -/
def MAX_SAFE_INTEGER : Int := 9007199254740991

def TemplateFieldSchema (P : Platform) (f : TemplateField) : Bool :=
  P.uuid f.id && (1 ≤ f.page && f.page ≤ MAX_SAFE_INTEGER) &&
    (0 ≤ f.x && f.x ≤ 1) && (0 ≤ f.y && f.y ≤ 1) &&
    (0 ≤ f.w && f.w ≤ 1 && 1 / 200 ≤ f.w) && (0 ≤ f.h && f.h ≤ 1 && 1 / 200 ≤ f.h) &&
    (1 ≤ f.recipientKey.length && f.recipientKey.length ≤ 64) &&
    (f.label.all fun l => l.length ≤ 200) &&
    (f.options.all fun o => o.length ≤ 30 && o.all fun v => 1 ≤ v.length && v.length ≤ 120) &&
    (f.x + f.w ≤ 10001 / 10000 && f.y + f.h ≤ 10001 / 10000) &&
    (!(f.type == .dropdown || f.type == .radio) || 1 ≤ (f.options.getD []).length)

def TemplateFieldsSchema (P : Platform) (fields : List TemplateField) : Bool :=
  fields.length ≤ 500 && fields.all (TemplateFieldSchema P)

end ESignSoft.Contracts
