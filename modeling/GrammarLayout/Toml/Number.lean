import GrammarLayout.Number.Double
import GrammarLayout.Number.Integer
import GrammarLayout.Style.Setting

/-!
# Numbers and dates of TOML

A value that starts with a digit or a sign is a whole number, a number with a
fraction or an exponent, or a date or time.  What its first bytes look like
decides which bytes belong to it; then the whole of it has to be well formed.
-/

namespace GrammarLayout.Toml

open Ascii Text

/-! ## Whole numbers -/

/-- Does a hexadecimal digit stand before every low line, and one at the end? -/
def linesFollowDigits (s : Text) : Bool :=
  go false s
where
  /-- The same for the rest of a text, given whether a digit stands in front of it. -/
  go : Bool → Text → Bool
    | before, [] => before
    | before, c :: s =>
        if c = underscore && !before then false else go (hexValue? c).isSome s

/-- A zero in front of further digits, unless it starts the mark of a base. -/
def hasLeadingZero (s : Text) : Bool :=
  match s with
  | c :: d :: rest =>
      if c = 0x30 then !(d = 0x62 || d = 0x6F || d = 0x78)
      else (c = minus || c = 0x2B) && d = 0x30 && !rest.isEmpty
  | _ => false

/-- A whole number. -/
def integer? (s : Text) : Option Setting :=
  if linesFollowDigits s && !hasLeadingZero s then
    (Integer.read s).toOption.map (.int .signed64)
  else none

/-! ## Numbers with a fraction or an exponent -/

/-- A mark that divides the parts of such a number. -/
def isFloatMark (c : UInt8) : Bool := c == dot || c == 0x65 || c == 0x45

/-- The parts of a number between its marks, empty ones left out. -/
def floatParts : Text → List Text
  | [] => []
  | c :: s =>
      if isFloatMark c then floatParts s
      else
        match s with
        | [] => [[c]]
        | d :: _ =>
            if isFloatMark d then [c] :: floatParts s
            else
              match floatParts s with
              | [] => [[c]]
              | p :: ps => (c :: p) :: ps

/-- Does a digit follow every dot? -/
def dotsBeforeDigits : Text → Bool
  | [] => true
  | c :: s => (c != dot || s.head?.any isDigit) && dotsBeforeDigits s

/-- The digits that a text starts with, at least one. -/
def digits? (s : Text) : Option (Text × Text) :=
  let ds := s.takeWhile isDigit
  if ds.isEmpty then none else some (ds, s.drop ds.length)

/-- The value of decimal digits. -/
def decimalValue (ds : Text) : Nat := ds.foldl (fun n c => n * 10 + (c - 0x30).toNat) 0

/-- The exponent at the end of a number; none means 0. -/
def exponent? (s : Text) : Option Int :=
  match s with
  | [] => some 0
  | c :: r =>
      if c = 0x65 || c = 0x45 then do
        let (negative, ds) := Integer.splitSign r
        let (ds, rest) ← digits? ds
        if rest.isEmpty then
          some (if negative then -(decimalValue ds : Int) else decimalValue ds)
        else none
      else none

/-- A decimal number without low lines. -/
def decimal? (s : Text) : Option Double := do
  let (negative, s) := Integer.splitSign s
  let (whole, rest) ← digits? s
  let (fraction, rest) ← match rest with
    | [] => some ([], [])
    | c :: r => if c = dot then digits? r else some ([], rest)
  let e ← exponent? rest
  some (.ofDecimal negative (decimalValue (whole ++ fraction)) (e - fraction.length))

/-- A number with a fraction or an exponent; one too large for a double is none. -/
def float? (s : Text) : Option Setting :=
  let parts := floatParts s
  if parts.all linesFollowDigits && !(parts.head?.any hasLeadingZero) && dotsBeforeDigits s then
    match decimal? (s.filter (· != underscore)) with
    | some (.finite negative m e) => some (.float (.finite negative m e))
    | _ => none
  else none

/-! ## Dates and times -/

/-- A number of exactly two digits. -/
def twoDigits? (s : Text) : Option (Nat × Text) :=
  match s with
  | a :: b :: rest => if isDigit a && isDigit b then some (decimalValue [a, b], rest) else none
  | _ => none

/-- A number of one or two digits. -/
def upToTwoDigits? (s : Text) : Option (Nat × Text) :=
  match s with
  | [] => none
  | a :: rest =>
      if !isDigit a then none
      else
        match rest with
        | b :: more =>
            if isDigit b then some (decimalValue [a, b], more) else some (decimalValue [a], rest)
        | [] => some (decimalValue [a], [])

/-- The rest of a text after a byte. -/
def after? (c : UInt8) (s : Text) : Option Text :=
  match s with
  | d :: rest => if d = c then some rest else none
  | [] => none

/-- The days of a month. -/
def daysOfMonth (year month : Nat) : Nat :=
  if month = 2 then
    if year % 4 = 0 && (year % 100 ≠ 0 || year % 400 = 0) then 29 else 28
  else if month = 4 || month = 6 || month = 9 || month = 11 then 30
  else 31

/-- What follows a date at the start of a text. -/
def afterDate? (s : Text) : Option Text := do
  let year := s.take 4
  if year.length = 4 && year.all isDigit then
    let rest ← after? minus (s.drop 4)
    let (month, rest) ← twoDigits? rest
    let rest ← after? minus rest
    let (day, rest) ← twoDigits? rest
    if 1 ≤ month && month ≤ 12 && 1 ≤ day && day ≤ daysOfMonth (decimalValue year) month then
      some rest
    else none
  else none

/-- A text without the fraction of a second it starts with. -/
def dropFraction (s : Text) : Text :=
  match s with
  | c :: d :: rest => if c = dot && isDigit d then rest.dropWhile isDigit else s
  | _ => s

/-- What follows a time of day at the start of a text. -/
def afterTime? (s : Text) : Option Text := do
  let (hour, rest) ← upToTwoDigits? s
  let rest ← after? colon rest
  let (minute, rest) ← twoDigits? rest
  let rest ← after? colon rest
  let (second, rest) ← twoDigits? rest
  if hour < 24 && minute < 60 && second < 60 then some (dropFraction rest) else none

/-- Is the text the offset of a time zone? -/
def isOffset (s : Text) : Bool :=
  s = [0x5A] || (do
    let rest ← match s with
      | c :: rest => if c = 0x2B || c = minus then some rest else none
      | [] => none
    let (hours, rest) ← twoDigits? rest
    let rest ← after? colon rest
    let (minutes, rest) ← twoDigits? rest
    some (hours ≤ 24 && minutes ≤ 60 && rest.isEmpty)) = some true

/-- Is the text a date, a time, or a date with a time? -/
def isMoment (s : Text) : Bool :=
  afterTime? s = some [] || (match afterDate? s with
    | none => false
    | some [] => true
    | some (c :: rest) =>
        c = 0x54 && (match afterTime? rest with
          | none => false
          | some zone => zone.isEmpty || isOffset zone))

/-- The spelling of a date with capital letters and without blanks. -/
def spellMoment (s : Text) : Text :=
  s.map fun c => if c = 0x7A then 0x5A else if c = 0x74 || c = space then 0x54 else c

/-- A date or a time. -/
def moment? (s : Text) : Option Setting := if isMoment (spellMoment s) then some .moment else none

/-! ## Which bytes belong to a number -/

/-- A byte of a date or a time. -/
def isMomentByte (c : UInt8) : Bool :=
  isDigit c || c == minus || c == colon || c == 0x54 || c == 0x74 || c == space || c == dot
    || c == 0x5A || c == 0x7A || c == 0x2B

/-- A byte of a number after its first mark. -/
def isFloatByte (c : UInt8) : Bool :=
  isDigit c || c == underscore || c == minus || c == 0x2B || isFloatMark c

/-- A number that is known to be decimal. -/
def decimalNumber? (s : Text) : Option (Setting × Text) :=
  let isPart (c : UInt8) : Bool := isDigit c || c == underscore
  let start := match s with
    | c :: _ => if c = minus || c = 0x2B then 1 else 0
    | [] => 0
  let size := start + ((s.drop start).takeWhile isPart).length
  match s.drop size with
  | [] => (integer? s).map (·, [])
  | c :: _ =>
      if isFloatMark c then
        let size := size + ((s.drop size).takeWhile isFloatByte).length
        (float? (s.take size)).map (·, s.drop size)
      else (integer? (s.take size)).map (·, s.drop size)

/-- A number in the base that its second byte marks. -/
def markedNumber? (s : Text) (isDigitOfBase : UInt8 → Bool) : Option (Setting × Text) :=
  if (s.drop 2).head?.any isDigitOfBase then
    let size := 2 + ((s.drop 2).takeWhile fun c => isDigitOfBase c || c == underscore).length
    (integer? (s.take size)).map (·, s.drop size)
  else none

/-- Do digits come first, at least two if the first is zero, and then a dash or a colon? -/
def startsMoment (s : Text) : Bool :=
  let ds := s.takeWhile isDigit
  !ds.isEmpty && ds != [0x30] && (s.drop ds.length).head?.any fun c => c == minus || c == colon

/-- The number or the date that a text starts with. -/
def number? (s : Text) : Option (Setting × Text) :=
  if startsMoment s then
    let token := s.takeWhile isMomentByte
    (moment? (trimEndWhile (· == space) token)).map (·, s.drop token.length)
  else
    match s with
    | c :: d :: _ =>
        if c = 0x30 && d = 0x62 then markedNumber? s fun b => b == 0x30 || b == 0x31
        else if c = 0x30 && d = 0x6F then markedNumber? s fun b => 0x30 ≤ b && b ≤ 0x37
        else if c = 0x30 && d = 0x78 then markedNumber? s fun b => (hexValue? b).isSome
        else if (c = minus || c = 0x2B) && !isDigit d then none
        else decimalNumber? s
    | _ => decimalNumber? s

end GrammarLayout.Toml
