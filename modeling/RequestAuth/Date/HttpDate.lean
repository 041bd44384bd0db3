import RequestAuth.Date.DateTime
import RequestAuth.Text.Blank
import RequestAuth.Text.Part

/-!
# HTTP dates

`HttpDate.render` writes a point in time the way HTTP headers do, such as
`Sun, 06 Nov 1994 08:49:37 GMT`. `HttpDate.read?` reads such a text back. Wherever the written form
has a space, and before each number, it takes any number of blanks; it takes short
numbers and names in any case, but refuses a weekday that is not that of the date.
-/

namespace RequestAuth.HttpDate

/-! ## Names -/

/-- The names of the days of the week. -/
def weekdays : List String := ["Sun", "Mon", "Tue", "Wed", "Thu", "Fri", "Sat"]

/-- The names of the months. -/
def months : List String :=
  ["Jan", "Feb", "Mar", "Apr", "May", "Jun", "Jul", "Aug", "Sep", "Oct", "Nov", "Dec"]

/-! ## Writing -/

/-- A number in decimal digits, filled up with zeros to the given width. -/
def padded (width n : Nat) : List Char :=
  let digits := Nat.toDigits 10 n
  List.replicate (width - digits.length) '0' ++ digits

/-- A year in four digits, or with a sign and as many digits as it takes. -/
def renderYear (year : Int) : List Char :=
  if year < 0 then '-' :: padded 4 year.natAbs
  else if year ≤ 9999 then padded 4 year.toNat
  else '+' :: padded 4 year.toNat

/-- The characters of an HTTP date. A leap second is shown as the second after the one that it
continues, which is second 60 at the end of a minute. -/
def renderChars (t : DateTime) : List Char :=
  let date := Calendar.ofDay t.dayNumber
  let second := t.secondOfDay % 60 + if t.isLeapSecond then 1 else 0
  (weekdays[Calendar.weekday t.dayNumber]?.getD "").toList ++ [',', ' '] ++
    padded 2 date.day ++ [' '] ++ (months[date.month - 1]?.getD "").toList ++ [' '] ++
    renderYear date.year ++ [' '] ++ padded 2 (t.secondOfDay / 3600) ++ [':'] ++
    padded 2 (t.secondOfDay / 60 % 60) ++ [':'] ++ padded 2 second ++ " GMT".toList

/-- The HTTP date of a point in time; fractions of a second are not shown. -/
def render (t : DateTime) : String :=
  String.ofList (renderChars t)

/-! ## Reading -/

/-- The place of the name, among those given, that starts the text, and what follows it. -/
def name? : List String → List Char → Option (Nat × List Char)
  | [], _ => none
  | name :: names, text => match Text.afterAnyCase? name.toList text with
    | some rest => some (0, rest)
    | none => (name? names text).map fun (i, rest) => (i + 1, rest)

/-- The digits at the start of the text, at most `most` of them, and what follows them. -/
def digits : Nat → List Char → List Char × List Char
  | most + 1, c :: text =>
    if c.isDigit then
      let (found, rest) := digits most text
      (c :: found, rest)
    else ([], c :: text)
  | _, text => ([], text)

/-- The number that decimal digits write. -/
def valueOf (digits : List Char) : Nat :=
  digits.foldl (fun n c => 10 * n + (c.toNat - 0x30)) 0

/-- The number at the start of the text, of one digit at least and `most` at most. -/
def number? (most : Nat) (text : List Char) : Option (Nat × List Char) :=
  match digits most text with
  | ([], _) => none
  | (found, rest) => some (valueOf found, rest)

/-- The number after any blanks, of one digit or two. -/
def field? (text : List Char) : Option (Nat × List Char) :=
  number? 2 (Text.trimStart text)

/-- The year after any blanks: of up to four digits, or with a sign and any number of digits. -/
def year? (text : List Char) : Option (Int × List Char) :=
  match Text.trimStart text with
  | '-' :: rest => (number? rest.length rest).map fun (n, rest) => (-(n : Int), rest)
  | '+' :: rest => (number? rest.length rest).map fun (n, rest) => ((n : Int), rest)
  | rest => (number? 4 rest).map fun (n, rest) => ((n : Int), rest)

/-- The point in time with the given fields, if there is one. -/
def assemble? (weekday : Nat) (date : Calendar) (hour minute second : Nat) : Option DateTime :=
  if date.Exists ∧ Calendar.weekday date.toDay = weekday ∧ hour < 24 ∧ minute < 60 ∧ second ≤ 60
  then
    let unix := date.toDay * 86400 + hour * 3600 + minute * 60
    if second = 60 then DateTime.ofUnix? (unix + 59) 1000000000
    else DateTime.ofUnix? (unix + second) 0
  else none

/-- The point in time that the characters of an HTTP date name. -/
def readChars? (text : List Char) : Option DateTime := do
  let (weekday, text) ← name? weekdays text
  let text ← Text.after? [','] text
  let (day, text) ← field? (Text.trimStart text)
  let (month, text) ← name? months (Text.trimStart text)
  let (year, text) ← year? (Text.trimStart text)
  let (hour, text) ← field? (Text.trimStart text)
  let (minute, text) ← field? (← Text.after? [':'] text)
  let (second, text) ← field? (← Text.after? [':'] text)
  let rest ← Text.after? "GMT".toList (Text.trimStart text)
  guard (rest = [])
  assemble? weekday ⟨year, month + 1, day⟩ hour minute second

/-- The point in time that an HTTP date names. -/
def read? (text : String) : Option DateTime :=
  readChars? text.toList

end RequestAuth.HttpDate
