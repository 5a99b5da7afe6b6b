import Typographical.Text.Base64
import Typographical.Yaml.Node
import Typographical.Yaml.Number

/-!
# Values of scalars

A quoted scalar is a text. What a plain one stands for depends on how it is
spelled: nothing, a truth value, a number, a date, or else a text. A tag can ask
for one of these; a scalar that is spelled otherwise is then a fault. One tag
asks for bytes to be decoded. Other tags leave any scalar a text.

Two angle brackets are a text with a tag of its own: as a key, they merge other
mappings into the one that they stand in.
-/

namespace Typographical

namespace Yaml

inductive Value where
  | null
  | truth (b : Bool)
  | integer (n : Int)
  | float (x : Double)
  | timestamp
  | text (tag text : String)

def Value.tag : Value → String
  | null => "!!null"
  | truth _ => "!!bool"
  | integer _ => "!!int"
  | float _ => "!!float"
  | timestamp => "!!timestamp"
  | text tag _ => tag

def textTag : String := "!!str"

/-- The tag of keys that merge other mappings into theirs. -/
def mergeTag : String := "!!merge"

/-- How such a key is written. -/
def mergeKey : String := "<<"

def bytesTag : String := "!!binary"

def words : List (List String × Value) := [
  (["true", "True", "TRUE"], .truth true),
  (["false", "False", "FALSE"], .truth false),
  (["", "~", "null", "Null", "NULL"], .null),
  ([".nan", ".NaN", ".NAN"], .float .notANumber),
  ([".inf", ".Inf", ".INF", "+.inf", "+.Inf", "+.INF"], .float (.infinite false)),
  (["-.inf", "-.Inf", "-.INF"], .float (.infinite true))]

def wordValue? (text : String) : Option Value :=
  (words.find? (fun w => w.1.contains text)).map Prod.snd

def shortNumber? : List Char → Option (Nat × List Char)
  | a :: b :: rest =>
    if a.isDigit then
      if b.isDigit then (digits? 10 [a, b]).map (·, rest)
      else (digits? 10 [a]).map (·, b :: rest)
    else none
  | [a] => if a.isDigit then (digits? 10 [a]).map (·, []) else none
  | [] => none

def daysIn (year month : Nat) : Nat :=
  if month = 2 then
    if year % 4 = 0 && (year % 100 ≠ 0 || year % 400 = 0) then 29 else 28
  else if [4, 6, 9, 11].contains month then 30
  else 31

/-- Read a date, with four digits for the year, and give what follows it. -/
def date? (text : List Char) : Option (List Char) := do
  let year ← digits? 10 (text.take 4)
  if (text.takeWhile Char.isDigit).length ≠ 4 || text[4]? ≠ some '-' then none
  let (month, afterMonth) ← shortNumber? (text.drop 5)
  if month = 0 || 12 < month || afterMonth.head? ≠ some '-' then none
  let (day, afterDay) ← shortNumber? (afterMonth.drop 1)
  if day = 0 || daysIn year month < day then none
  return afterDay

/-- Read a time of day and give what follows it. Fractions of a second are
divided by a point or a comma. -/
def timeOfDay? (text : List Char) : Option (List Char) := do
  let (hour, afterHour) ← shortNumber? text
  if 24 ≤ hour || afterHour.head? ≠ some ':' then none
  let (minute, afterMinute) ← shortNumber? (afterHour.drop 1)
  if 60 ≤ minute || afterMinute.head? ≠ some ':' then none
  let (second, afterSecond) ← shortNumber? (afterMinute.drop 1)
  if 60 ≤ second then none
  match afterSecond with
  | mark :: a :: rest =>
    if (mark = '.' || mark = ',') && a.isDigit then return rest.dropWhile Char.isDigit
    else return afterSecond
  | rest => return rest

/-- Whether a text is the offset of a time zone. Both of its numbers may be one
more than the largest that is needed. -/
def isZone : List Char → Bool
  | ['Z'] => true
  | [sign, a, b, ':', c, d] =>
    (sign = '+' || sign = '-') && (digits? 10 [a, b]).any (· ≤ 24) &&
      (digits? 10 [c, d]).any (· ≤ 60)
  | _ => false

/-- Whether a text is a date, possibly with a time of day behind spaces, or with
a time of day and a zone behind a letter. -/
def isTimestamp (text : List Char) : Bool :=
  match date? text with
  | none => false
  | some [] => true
  | some (' ' :: rest) => timeOfDay? (rest.dropWhile (· = ' ')) = some []
  | some (a :: rest) => (a = 'T' || a = 't') && (timeOfDay? rest).any isZone

/-- Leave out underscores between digits; there may be no others. -/
def withoutUnderscores? : List Char → Option (List Char)
  | [] => some []
  | '_' :: _ => none
  | a :: '_' :: b :: rest =>
    if a.isDigit && b.isDigit then (withoutUnderscores? (b :: rest)).map (a :: ·) else none
  | a :: rest => (withoutUnderscores? rest).map (a :: ·)

/-- The number that a text without underscores spells. -/
def number? (text : List Char) : Option Value :=
  ((wordInteger? unsigned? text).map .integer).or
    ((((Decimal.read? text).bind Double.ofDecimal?).map .float).or
      ((lateSigned? text).map .integer))

/-- What a plain scalar stands for, where `dates` says whether it may be a date. -/
def Value.ofPlain (dates : Bool) (text : String) : Value :=
  let cs := text.toList
  match wordValue? text, cs with
  | some v, _ => v
  | none, [] => .null
  | none, a :: _ =>
    let numeric :=
      if a = '.' then
        ((withoutUnderscores? cs).bind Decimal.read?).bind Double.ofDecimal? |>.map .float
      else if a.isDigit || a = '+' || a = '-' then
        if dates && isTimestamp cs then some .timestamp
        else number? (cs.filter (· ≠ '_'))
      else none
    numeric.getD (.text textTag text)

def shortTag (tag : String) : String :=
  let stem := "tag:yaml.org,2002:".toList
  if stem.isPrefixOf tag.toList then "!!" ++ String.ofList (tag.toList.drop stem.length)
  else tag

/-- The tags that ask for a particular kind of value. -/
def kindTags : List String := ["!!bool", "!!int", "!!float", "!!null", "!!timestamp"]

/-- What a scalar with a tag stands for. -/
def Value.ofTagged (wanted text : String) : Except Fault Value :=
  if kindTags.contains wanted then
    match Value.ofPlain (wanted = "!!timestamp") text with
    | .integer n =>
      if wanted = "!!int" then .ok (.integer n)
      else if wanted = "!!float" && n < signedBound then .ok (.float (.ofInt n))
      else .error (.overall (.otherTag "!!int" text wanted))
    | v => if v.tag = wanted then .ok v else .error (.overall (.otherTag v.tag text wanted))
  else if wanted = bytesTag then
    match Base64.decode? text.toList with
    | some bytes => .ok (.text wanted (Utf8.text ⟨bytes.toArray⟩))
    | none => .error (.overall .badBase64)
  else .ok (.text wanted text)

def Value.ofScalar (tag : Option String) (style : Style) (text : String) :
    Except Fault Value :=
  match (tag.filter (· ≠ "!")).map shortTag with
  | some wanted => Value.ofTagged wanted text
  | none =>
    if style ≠ .plain then .ok (.text textTag text)
    else if text = mergeKey then .ok (.text mergeTag text)
    else .ok (.ofPlain true text)

def Node.isMergeKey : Node → Bool
  | .scalar _ tag style text =>
    text = mergeKey &&
      match (tag.filter (· ≠ "!")).map shortTag with
      | some given => given = mergeTag
      | none => style = .plain
  | _ => false

end Yaml

end Typographical
