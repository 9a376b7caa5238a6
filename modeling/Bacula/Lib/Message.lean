import Bacula.Lib.Scan

/-! Messages with fields, `bvsnprintf` and `bsscanf`: one daemon edits them with its format, the other
scans them with its own. Only the conversions of these messages are modelled. -/
namespace Bacula.Message
open Scan

/-- An argument of the sender, or a variable of the receiver. -/
inductive Value where
  | word (w : UInt32)
  | quad (q : UInt64)
  | str (s : List UInt8)
  deriving DecidableEq

/-- How much of a conversion has been read. -/
inductive Mode where
  | text | percent | long | llong
  | width (n : ℕ)

def byte (c : Char) : UInt8 := UInt8.ofNat c.toNat

/-- `%d` of any size. -/
def integer (z : ℤ) : List UInt8 := if z < 0 then 45 :: decimal (-z).toNat else decimal z.toNat

/-- `bvsnprintf`. -/
def bsnprintf : Mode → List Char → List Value → List UInt8
  | .text, c :: fmt, args =>
      if c = '%' then bsnprintf .percent fmt args else byte c :: bsnprintf .text fmt args
  | .percent, 'u' :: fmt, .word w :: args => integer w.toNat ++ bsnprintf .text fmt args
  | .percent, 'd' :: fmt, .word w :: args => integer w.toInt32.toInt ++ bsnprintf .text fmt args
  | .percent, 's' :: fmt, .str s :: args => cstr s ++ bsnprintf .text fmt args
  | .percent, 'l' :: fmt, args => bsnprintf .long fmt args
  | .long, 'd' :: fmt, .word w :: args => integer w.toInt32.toInt ++ bsnprintf .text fmt args
  | .long, 'l' :: fmt, args => bsnprintf .llong fmt args
  | .llong, 'd' :: fmt, .quad q :: args => integer q.toInt64.toInt ++ bsnprintf .text fmt args
  | _, _, _ => []

/-- The digits at the pointer. -/
def digits (buf : List UInt8) : UInt64 :=
  UInt64.ofNat (Nat.ofDigitChars 10 ((buf.takeWhile isDigit).map byteChar) 0)

def pastDigits (buf : List UInt8) : List UInt8 := buf.dropWhile isDigit

/-- The number of `%d`, and what is behind it. -/
def signedDigits (buf : List UInt8) : UInt64 × List UInt8 :=
  if buf.head? = some 45 then (-digits buf.tail, pastDigits buf.tail)
  else (digits buf, pastDigits buf)

/-- The string of `%s`. -/
def word (maxLen : ℕ) (buf : List UInt8) : List UInt8 :=
  (buf.takeWhile fun b => b ≠ 0 ∧ ¬ bIsSpace b).take maxLen

/-- `BIG`. -/
def BIG : ℕ := 1000

/-- `bsscanf`: the variables that are stored, or none after an error. -/
def bsscanf : Mode → List Char → List UInt8 → Option (List Value)
  | .text, [], _ => some []
  | .text, c :: fmt, buf =>
      if c = '%' then bsscanf .percent fmt buf
      -- White space eats zero or more whitespace
      else if isSpace c then bsscanf .text fmt (Scan.skipSpaces buf)
      -- Plain text must match
      else if buf.head? = some (byte c) then bsscanf .text fmt buf.tail
      else none
  | .percent, c :: fmt, buf =>
      if c = 'u' then (bsscanf .text fmt (pastDigits buf)).map (.word (digits buf).toUInt32 :: ·)
      else if c = 'd' then
        (bsscanf .text fmt (signedDigits buf).2).map (.word (signedDigits buf).1.toUInt32 :: ·)
      else if c = 'l' then bsscanf .long fmt buf
      else if c = 's' then
        (bsscanf .text fmt (buf.drop (word BIG buf).length)).map (.str (word BIG buf) :: ·)
      else if c.isDigit then bsscanf (.width (c.toNat - '0'.toNat)) fmt buf
      else none
  | .long, c :: fmt, buf =>
      if c = 'u' then (bsscanf .text fmt (pastDigits buf)).map (.word (digits buf).toUInt32 :: ·)
      else if c = 'd' then
        (bsscanf .text fmt (signedDigits buf).2).map (.word (signedDigits buf).1.toUInt32 :: ·)
      else if c = 'l' then bsscanf .llong fmt buf
      else none
  | .llong, c :: fmt, buf =>
      if c = 'u' then (bsscanf .text fmt (pastDigits buf)).map (.quad (digits buf) :: ·)
      else if c = 'd' then
        (bsscanf .text fmt (signedDigits buf).2).map (.quad (signedDigits buf).1 :: ·)
      else none
  | .width n, c :: fmt, buf =>
      if c.isDigit then bsscanf (.width (10 * n + (c.toNat - '0'.toNat))) fmt buf
      else if c = 's' then
        (bsscanf .text fmt (buf.drop (word n buf).length)).map (.str (word n buf) :: ·)
      else none
  | _, [], _ => none

/-- A format that is cut behind each label and each conversion, with the line feed at its end. -/
def format (pieces : List (String × String)) : List Char :=
  pieces.flatMap (fun piece => piece.1.toList ++ piece.2.toList) ++ ['\n']

theorem format_cons (label conv : String) (pieces : List (String × String)) :
    format ((label, conv) :: pieces) = label.toList ++ (conv.toList ++ format pieces) := by
  rw [format, List.flatMap_cons, List.append_assoc, List.append_assoc]
  rfl

/-! ## Numbers -/

/-- What stands behind a field. -/
def Stops (rest : List UInt8) : Prop := ∀ b, rest.head? = some b → bIsSpace b = true

theorem Stops.not_digit {rest : List UInt8} (stops : Stops rest) {b : UInt8}
    (first : rest.head? = some b) : isDigit b = false := by
  cases digit : isDigit b with
  | false => rfl
  | true =>
      have space := stops b first
      rw [bIsSpace_of_isDigit digit] at space
      cases space

theorem takeWhile_digits (n : ℕ) {rest : List UInt8} (stops : Stops rest) :
    (decimal n ++ rest).takeWhile isDigit = decimal n ∧
      (decimal n ++ rest).dropWhile isDigit = rest := by
  rw [List.takeWhile_append_of_pos (decimal_isDigit n),
    List.dropWhile_append_of_pos (decimal_isDigit n)]
  cases rest with
  | nil => exact ⟨List.append_nil _, rfl⟩
  | cons b rest =>
      rw [List.takeWhile_cons, List.dropWhile_cons, stops.not_digit rfl]
      exact ⟨List.append_nil _, rfl⟩

theorem digits_decimal (n : ℕ) {rest : List UInt8} (stops : Stops rest) :
    digits (decimal n ++ rest) = UInt64.ofNat n ∧ pastDigits (decimal n ++ rest) = rest := by
  obtain ⟨taken, left⟩ := takeWhile_digits n stops
  refine ⟨?_, left⟩
  rw [digits, taken, map_decimal, Nat.ofDigitChars_ten_toDigits]

theorem head_decimal (n : ℕ) (rest : List UInt8) : (decimal n ++ rest).head? ≠ some 45 := by
  have all := decimal_isDigit n
  obtain ⟨d, q, eq⟩ := List.exists_cons_of_ne_nil (decimal_ne_nil n)
  rw [eq] at all ⊢
  intro first
  exact absurd (all 45 (Option.some.inj first ▸ List.mem_cons_self)) (by decide)

theorem integer_natCast (n : ℕ) : integer n = decimal n := by
  rw [integer, if_neg (by omega), Int.toNat_natCast]

theorem ofInt_natCast (n : ℕ) : UInt64.ofInt n = UInt64.ofNat n := by
  apply UInt64.toNat_inj.mp
  rw [UInt64.ofInt, UInt64.toNat_ofNat', UInt64.toNat_ofNat']
  omega

theorem signedDigits_integer (z : ℤ) {rest : List UInt8} (stops : Stops rest) :
    signedDigits (integer z ++ rest) = (UInt64.ofInt z, rest) := by
  unfold integer
  split
  · next negative =>
      obtain ⟨value, left⟩ := digits_decimal (-z).toNat stops
      have same : -UInt64.ofNat (-z).toNat = UInt64.ofInt z := by
        have sum : UInt64.ofInt z + UInt64.ofNat (-z).toNat = 0 := by
          rw [← ofInt_natCast, ← UInt64.ofInt_add, Int.toNat_of_nonneg (by omega), add_neg_cancel]
          rfl
        grind
      rw [List.cons_append, signedDigits, if_pos (by rfl), List.tail_cons, value, left, same]
  · next positive =>
      obtain ⟨value, left⟩ := digits_decimal z.toNat stops
      have same : UInt64.ofNat z.toNat = UInt64.ofInt z := by
        rw [← ofInt_natCast, Int.toNat_of_nonneg (not_lt.mp positive)]
      rw [signedDigits, if_neg (head_decimal _ _), value, left, same]

/-! ## Strings -/

theorem word_append {s rest : List UInt8} (solid : Solid s) (stops : Stops rest) {maxLen : ℕ}
    (fits : s.length ≤ maxLen) : word maxLen (s ++ rest) = s := by
  have behind : rest.takeWhile (fun b => decide (b ≠ 0 ∧ ¬ bIsSpace b)) = [] := by
    cases rest with
    | nil => rfl
    | cons b rest => simp [stops b rfl]
  rw [word, List.takeWhile_append_of_pos fun b member => by simpa using solid b member, behind,
    List.append_nil, List.take_of_length_le fits]

/-! ## Labels -/

/-- Text without a conversion and without two blanks in a row, that does not end in a blank. -/
def tight : List Char → Bool
  | [] => true
  | [c] => !isSpace c && c != '%' && c.toNat < 128
  | c :: d :: label => !(isSpace c && isSpace d) && c != '%' && c.toNat < 128 && tight (d :: label)

theorem byteChar_byte {c : Char} (ascii : c.toNat < 128) : byteChar (byte c) = c := by
  rw [byteChar, byte, UInt8.toNat_ofNat_of_lt' (lt_trans ascii (by decide)), Char.ofNat_toNat]

theorem print_label {label : List Char} (tidy : tight label = true) (fmt : List Char)
    (args : List Value) :
    bsnprintf .text (label ++ fmt) args = label.map byte ++ bsnprintf .text fmt args := by
  induction label with
  | nil => rfl
  | cons c label ih =>
      have here : c ≠ '%' ∧ tight label = true := by
        cases label with
        | nil => simp_all [tight]
        | cons d label => simp_all [tight]
      rw [List.cons_append, bsnprintf, if_neg here.1, ih here.2]
      rfl

theorem scan_label {label : List Char} (tidy : tight label = true) (fmt : List Char)
    (rest : List UInt8) :
    bsscanf .text (label ++ fmt) (label.map byte ++ rest) = bsscanf .text fmt rest := by
  induction label with
  | nil => rfl
  | cons c label ih =>
      have plain : c ≠ '%' ∧ c.toNat < 128 ∧ tight label = true := by
        cases label <;> simp_all [tight]
      have self : bIsSpace (byte c) = isSpace c := by rw [bIsSpace, byteChar_byte plain.2.1]
      rw [List.cons_append, bsscanf, if_neg plain.1]
      by_cases space : isSpace c = true
      · rw [if_pos space]
        cases label with
        | nil => simp [tight, space] at tidy
        | cons d label =>
            have next : isSpace d = false ∧ d.toNat < 128 := by
              cases label <;> simp_all [tight]
            have solid : bIsSpace (byte d) = false := by
              rw [bIsSpace, byteChar_byte next.2, next.1]
            have skipped : Scan.skipSpaces ((c :: d :: label).map byte ++ rest) =
                (d :: label).map byte ++ rest := by
              simp [Scan.skipSpaces, self, space, solid]
            rw [skipped]
            exact ih plain.2.2
      · rw [if_neg space, List.map_cons, List.cons_append, List.head?_cons, if_pos rfl]
        exact ih plain.2.2

/-! ## Fields -/

/-- How the sender edits a text. -/
structure Sends (text : List UInt8) where
  conv : String
  arg : Value
  prints : ∀ fmt args,
    bsnprintf .text (conv.toList ++ fmt) (arg :: args) = text ++ bsnprintf .text fmt args

/-- How the receiver scans it. -/
structure Scans (text : List UInt8) where
  conv : String
  value : Value
  scans : ∀ fmt rest, Stops rest →
    bsscanf .text (conv.toList ++ fmt) (text ++ rest) = (bsscanf .text fmt rest).map (value :: ·)

def Sends.u (w : UInt32) : Sends (integer w.toNat) := ⟨"%u", .word w, fun _ _ => rfl⟩

def Sends.d (w : UInt32) : Sends (integer w.toInt32.toInt) := ⟨"%d", .word w, fun _ _ => rfl⟩

def Sends.ld (w : UInt32) : Sends (integer w.toInt32.toInt) :=
  ⟨"%ld", .word w, fun _ _ => rfl⟩

def Sends.lld (q : UInt64) : Sends (integer q.toInt64.toInt) :=
  ⟨"%lld", .quad q, fun _ _ => rfl⟩

def Sends.s (text : List UInt8) (terminated : 0 ∉ text) : Sends text :=
  ⟨"%s", .str text, fun fmt args => by
    have whole : cstr text = text :=
      List.takeWhile_eq_self_iff.mpr fun b member =>
        decide_eq_true fun zero => terminated (zero ▸ member)
    change cstr text ++ bsnprintf .text fmt args = _
    rw [whole]⟩

theorem unsigned_scanned (n : ℕ) {rest : List UInt8} (stops : Stops rest) :
    digits (integer n ++ rest) = UInt64.ofNat n ∧ pastDigits (integer n ++ rest) = rest := by
  rw [integer_natCast]
  exact digits_decimal n stops

def Scans.u (n : ℕ) : Scans (integer n) :=
  ⟨"%u", .word (UInt64.ofNat n).toUInt32, fun fmt rest stops => by
    obtain ⟨value, left⟩ := unsigned_scanned n stops
    change (bsscanf .text fmt (pastDigits (integer n ++ rest))).map
      (.word (digits (integer n ++ rest)).toUInt32 :: ·) = _
    rw [value, left]⟩

def Scans.lu (n : ℕ) : Scans (integer n) :=
  ⟨"%lu", .word (UInt64.ofNat n).toUInt32, fun fmt rest stops => by
    obtain ⟨value, left⟩ := unsigned_scanned n stops
    change (bsscanf .text fmt (pastDigits (integer n ++ rest))).map
      (.word (digits (integer n ++ rest)).toUInt32 :: ·) = _
    rw [value, left]⟩

def Scans.d (z : ℤ) : Scans (integer z) :=
  ⟨"%d", .word (UInt64.ofInt z).toUInt32, fun fmt rest stops => by
    change (bsscanf .text fmt (signedDigits (integer z ++ rest)).2).map
      (.word (signedDigits (integer z ++ rest)).1.toUInt32 :: ·) = _
    rw [signedDigits_integer z stops]⟩

def Scans.ld (z : ℤ) : Scans (integer z) :=
  ⟨"%ld", .word (UInt64.ofInt z).toUInt32, fun fmt rest stops => by
    change (bsscanf .text fmt (signedDigits (integer z ++ rest)).2).map
      (.word (signedDigits (integer z ++ rest)).1.toUInt32 :: ·) = _
    rw [signedDigits_integer z stops]⟩

def Scans.lld (z : ℤ) : Scans (integer z) :=
  ⟨"%lld", .quad (UInt64.ofInt z), fun fmt rest stops => by
    change (bsscanf .text fmt (signedDigits (integer z ++ rest)).2).map
      (.quad (signedDigits (integer z ++ rest)).1 :: ·) = _
    rw [signedDigits_integer z stops]⟩

/-- A string of at most `maxLen` characters, with the conversion that has this length. -/
theorem string_scanned {text : List UInt8} (solid : Solid text) {maxLen : ℕ}
    (fits : text.length ≤ maxLen) (fmt : List Char) {rest : List UInt8} (stops : Stops rest) :
    (bsscanf .text fmt ((text ++ rest).drop (word maxLen (text ++ rest)).length)).map
      (.str (word maxLen (text ++ rest)) :: ·) = (bsscanf .text fmt rest).map (.str text :: ·) := by
  rw [word_append solid stops fits, List.drop_left]

theorem integer_solid (z : ℤ) : Solid (integer z) := by
  unfold integer
  split
  · intro b member
    rcases List.mem_cons.mp member with rfl | inside
    · decide
    · exact decimal_solid _ b inside
  · exact decimal_solid _

theorem Solid.terminated {text : List UInt8} (solid : Solid text) : 0 ∉ text :=
  fun member => (solid 0 member).1 rfl

/-- The sender edits the number into a string. -/
def Sends.edited (z : ℤ) : Sends (integer z) := Sends.s _ (Solid.terminated (integer_solid z))

/-- A text with its label, as it is edited and as it is scanned. -/
structure Field where
  label : String
  text : List UInt8
  sends : Sends text
  scans : Scans text
  tidy : tight label.toList = true

def sendFormat (fields : List Field) : List Char :=
  format (fields.map fun f => (f.label, f.sends.conv))

def scanFormat (fields : List Field) : List Char :=
  format (fields.map fun f => (f.label, f.scans.conv))

def message (fields : List Field) : List UInt8 :=
  fields.flatMap (fun f => f.label.toList.map byte ++ f.text) ++ [10]

theorem message_cons (f : Field) (fields : List Field) :
    message (f :: fields) = f.label.toList.map byte ++ (f.text ++ message fields) := by
  rw [message, List.flatMap_cons, List.append_assoc, List.append_assoc]
  rfl

theorem message_sent (fields : List Field) :
    bsnprintf .text (sendFormat fields) (fields.map fun f => f.sends.arg) = message fields := by
  induction fields with
  | nil => rfl
  | cons f fields ih =>
      rw [message_cons, sendFormat, List.map_cons, List.map_cons, format_cons, print_label f.tidy,
        f.sends.prints]
      exact congrArg (fun rest => f.label.toList.map byte ++ (f.text ++ rest)) ih

/-- All fields have a blank before them. -/
def Spaced (fields : List Field) : Prop := ∀ f ∈ fields, f.label.toList.head? = some ' '

theorem message_stops {fields : List Field} (spaced : Spaced fields) : Stops (message fields) := by
  intro b first
  cases fields with
  | nil =>
      cases first
      decide
  | cons f fields =>
      obtain ⟨label, eq⟩ := List.head?_eq_some_iff.mp (spaced f List.mem_cons_self)
      simp only [message_cons, eq, List.map_cons, List.cons_append, List.head?_cons,
        Option.some.injEq] at first
      rw [← first]
      decide

theorem field_scanned (f : Field) {fields : List Field} (spaced : Spaced fields) :
    bsscanf .text (scanFormat (f :: fields)) (message (f :: fields)) =
      (bsscanf .text (scanFormat fields) (message fields)).map (f.scans.value :: ·) := by
  rw [message_cons, scanFormat, List.map_cons, format_cons, scan_label f.tidy]
  exact f.scans.scans _ _ (message_stops spaced)

theorem fields_scanned {fields : List Field} (spaced : Spaced fields) :
    bsscanf .text (scanFormat fields) (message fields) =
      some (fields.map fun f => f.scans.value) := by
  induction fields with
  | nil => rfl
  | cons f fields ih =>
      have later : Spaced fields := fun g member => spaced g (List.mem_cons_of_mem _ member)
      rw [field_scanned f later, ih later]
      rfl

/-- A message is scanned field by field. -/
theorem message_scanned (f : Field) {fields : List Field} (spaced : Spaced fields) :
    bsscanf .text (scanFormat (f :: fields)) (message (f :: fields)) =
      some ((f :: fields).map fun f => f.scans.value) := by
  rw [field_scanned f spaced, fields_scanned spaced]
  rfl

/-! ## What the receiver keeps of a number -/

theorem toNat_ofInt (z : ℤ) : (UInt64.ofInt z).toNat = (z % 2 ^ 64).toNat := by
  rw [UInt64.ofInt, UInt64.toNat_ofNat']
  omega

@[simp] theorem kept_d (w : UInt32) : (UInt64.ofInt w.toInt32.toInt).toUInt32 = w := by
  apply UInt32.toNat_inj.mp
  have bound := w.toNat_lt
  have value : w.toInt32.toInt = (w.toNat : ℤ).bmod (2 ^ 32) :=
    BitVec.toInt_eq_toNat_bmod w.toBitVec
  have low : w.toInt32.toInt % (2 ^ 32 : ℕ) = w.toNat % (2 ^ 32 : ℕ) := by
    rw [value, Int.bmod_emod]
  rw [UInt64.toNat_toUInt32, toNat_ofInt]
  omega

@[simp] theorem kept_edited (q : UInt64) : UInt64.ofInt q.toNat = q := by
  rw [ofInt_natCast, UInt64.ofNat_toNat]

@[simp] theorem kept_wide (w : UInt32) : UInt64.ofInt w.toNat = w.toUInt64 := by
  rw [ofInt_natCast, UInt64.ofNat_uInt32ToNat]

@[simp] theorem kept_signed (q : Int64) : UInt64.ofInt q.toInt = q.toUInt64 := by
  apply UInt64.toNat_inj.mp
  have bound := q.toUInt64.toNat_lt
  have value : q.toInt = (q.toUInt64.toNat : ℤ).bmod (2 ^ 64) :=
    BitVec.toInt_eq_toNat_bmod q.toBitVec
  have low : q.toInt % (2 ^ 64 : ℕ) = q.toUInt64.toNat % (2 ^ 64 : ℕ) := by
    rw [value, Int.bmod_emod]
  rw [toNat_ofInt]
  omega

end Bacula.Message
