import EasyIpc.Plugin
import EasyIpc.Lib.Doubles
import EasyIpc.Lib.Scan
import EasyIpc.Lib.Stdio

/-!
# JSON texts

The parser of `cjson.c`, which reads the plugin files of the daemon.

A place in the text is what is left of its block from there on; the block ends with a zero byte.  The
parser has two ways to leave its memory: a backslash can carry it past the zero byte, and the second
pass over a string can write more than the first one has made room for.  Both end in
`Scanned.undefined`.

* `Json`, `Json.toCJson` — the trees, and the fields of their nodes that the loaders read.
* `parseString`, `parseNumber`, `parseValue`, `cJSONParse` — the parser.

The operations on doubles are a parameter, `Doubles`; what two variables of `parse_string` hold before
they are set is the parameter `junk`.
-/

namespace EasyIpc

open Printf Numerals Scan Stdio Floats

/-! ## Trees -/

/-- A value of `cjson.c`, by its type. -/
inductive Json (ν : Type) where
  | null
  | bool (valueint : Bool)
  | number (valuedouble : ν)
  | string (valuestring : CStr)
  | array (child : List (Json ν))
  | object (child : List (CStr × Json ν))

variable {ν : Type}

mutual

/-- The node of a value, under the name that its object gives it. -/
def Json.toCJson (string : Option CStr) : Json ν → CJson
  | .null => .node string none []
  | .bool _ => .node string none []
  | .number _ => .node string none []
  | .string valuestring => .node string (some valuestring) []
  | .array child => .node string none (itemNodes child)
  | .object child => .node string none (memberNodes child)

/-- The nodes of the items of an array. -/
def itemNodes : List (Json ν) → List CJson
  | [] => []
  | item :: items => item.toCJson none :: itemNodes items

/-- The nodes of the members of an object. -/
def memberNodes : List (CStr × Json ν) → List CJson
  | [] => []
  | (name, item) :: items => item.toCJson (some name) :: memberNodes items

end

/-! ## Strings -/

/-- `skip`. -/
def skip (text : List UInt8) : List UInt8 := text.dropWhile fun c => c != 0 && c ≤ 32

/-- The first pass over a string, from behind its quote on: the number of bytes it makes room for. -/
def stringLen : List UInt8 → Option ℕ
  | [] => none
  | c :: ptr =>
      if c = 34 ∨ c = 0 then some 0
      else if c ≠ 92 then (stringLen ptr).map (· + 1)
      else
        match ptr with
        | [] => none
        | _ :: ptr => (stringLen ptr).map (· + 1)

/-- The byte that stands for a letter behind a backslash. -/
def escapeChar (c : UInt8) : UInt8 :=
  if c = 98 then 8 else if c = 102 then 12 else if c = 110 then 10 else if c = 114 then 13
  else if c = 116 then 9 else c

/-- `sscanf(s, "%4x", &uc)`: the `unsigned` afterwards. -/
def sscanf4x (s : List UInt8) (uc : ℕ) : ℕ :=
  match scanHex ((s.dropWhile isSpace).take 4) with
  | none => uc
  | some v => (v % 4294967296).toNat

/-- `firstByteMark`. -/
def firstByteMark : ℕ → ℕ
  | 2 => 0xC0
  | 3 => 0xE0
  | 4 => 0xF0
  | 5 => 0xF8
  | 6 => 0xFC
  | _ => 0

/-- The number of bytes of a code point. -/
def utf8Len (uc : ℕ) : ℕ :=
  if uc < 0x80 then 1 else if uc < 0x800 then 2 else if uc < 0x10000 then 3 else 4

/-- The cases of the `switch` above `case 1`: the bytes they write, and what is left of `uc`. -/
def utf8Tail : ℕ → ℕ → List UInt8 × ℕ
  | 0, uc => ([], uc)
  | n + 1, uc =>
      ((utf8Tail n (uc >>> 6)).1 ++ [UInt8.ofNat ((uc ||| 0x80) &&& 0xBF)], (utf8Tail n (uc >>> 6)).2)

/-- The bytes that the `switch` writes, and what is left of `uc`. -/
def utf8Write (uc : ℕ) : List UInt8 × ℕ :=
  let (tail, left) := utf8Tail (utf8Len uc - 1) uc
  (UInt8.ofNat (left ||| firstByteMark (utf8Len uc)) :: tail, left)

/-- Put bytes before what the rest of a pass has written. -/
def prepend (out : List UInt8) (o : Option (List UInt8 × List UInt8)) :
    Option (List UInt8 × List UInt8) := o.map fun p => (out ++ p.1, p.2)

/-- The `switch` of the second pass, from behind a backslash on: the bytes that it writes, and `uc` and
`uc2` afterwards. -/
def unescapeSwitch (uc uc2 : ℕ) : List UInt8 → Scanned (List UInt8 × ℕ × ℕ)
  | [] => .undefined
  | e :: ptr =>
      if e ≠ 117 then .done ([escapeChar e], uc, uc2) ptr
      else if ptr.length < 4 then .undefined
      else
        let uc := sscanf4x ptr uc
        let ptr := ptr.drop 4
        if (0xDC00 ≤ uc ∧ uc ≤ 0xDFFF) ∨ uc = 0 then .done ([], uc, uc2) ptr
        else if 0xD800 ≤ uc ∧ uc ≤ 0xDBFF then
          if ptr = [] then .undefined
          else if ptr.head? ≠ some 92 then .done ([], uc, uc2) ptr
          else if ptr.tail = [] then .undefined
          else if ptr.tail.head? ≠ some 117 then .done ([], uc, uc2) ptr
          else if ptr.length < 6 then .undefined
          else
            let uc2 := sscanf4x (ptr.drop 2) uc2
            let ptr := ptr.drop 6
            if uc2 < 0xDC00 ∨ uc2 > 0xDFFF then .done ([], uc, uc2) ptr
            else
              let uc := 0x10000 + (((uc &&& 0x3FF) <<< 10) ||| (uc2 &&& 0x3FF))
              .done ((utf8Write uc).1, (utf8Write uc).2, uc2) ptr
        else .done ((utf8Write uc).1, (utf8Write uc).2, uc2) ptr

/-- The second pass over a string, with a bound on its rounds: what it writes, and where it stops. -/
def unescape : ℕ → ℕ → ℕ → List UInt8 → Option (List UInt8 × List UInt8)
  | 0, _, _, _ => none
  | _ + 1, _, _, [] => none
  | n + 1, uc, uc2, c :: ptr =>
      if c = 34 ∨ c = 0 then some ([], c :: ptr)
      else if c ≠ 92 then prepend [c] (unescape n uc uc2 ptr)
      else
        match unescapeSwitch uc uc2 ptr with
        | .done (out, uc, uc2) ptr => prepend out (unescape n uc uc2 ptr)
        | _ => none

/-- `parse_string`; `junk n` is what `uc` and `uc2` hold at first where `n` bytes are left. -/
def parseString (junk : ℕ → ℕ × ℕ) (str : List UInt8) : Scanned CStr :=
  match str with
  | [] => .undefined
  | c :: ptr =>
      if c ≠ 34 then .fail
      else
        match stringLen ptr, unescape str.length (junk str.length).1 (junk str.length).2 ptr with
        | some len, some (out, rest) =>
            if len < out.length then .undefined
            else .done (cstr out) (if rest.head? = some 34 then rest.tail else rest)
        | _, _ => .undefined

/-! ## Numbers -/

/-- `c>='0' && c<='9'`. -/
def decDigit (c : UInt8) : Bool := 48 ≤ c && c ≤ 57

/-- The text is behind a byte, if it begins with it. -/
def eat (c : UInt8) (num : List UInt8) : List UInt8 := if num.head? = some c then num.tail else num

/-- The digits before the point. -/
def numberInt (num : List UInt8) : List UInt8 :=
  if num.head?.any fun c => 49 ≤ c && c ≤ 57 then num.takeWhile decDigit else []

/-- The digits behind the point. -/
def numberFraction (num : List UInt8) : List UInt8 :=
  if num.head? = some 46 ∧ num.tail.head?.any decDigit then num.tail.takeWhile decDigit else []

/-- The sign and the digits of the exponent, and the text behind them. -/
def numberExponent (num : List UInt8) : Bool × List UInt8 × List UInt8 :=
  if num.head? = some 101 ∨ num.head? = some 69 then
    let num := num.tail
    let expNegative := num.head? = some 45
    let num := if num.head? = some 43 then num.tail else eat 45 num
    (expNegative, num.takeWhile decDigit, num.dropWhile decDigit)
  else (false, [], num)

/-- What `parse_number` reads: the digits before and behind the point, and the sign and the digits of the
exponent. -/
structure NumberParts where
  negative : Bool
  digits : List UInt8
  fraction : List UInt8
  expNegative : Bool
  exponent : List UInt8
  deriving DecidableEq, Repr

/-- What `parse_number` reads, and the text behind it. -/
def scanNumber (num : List UInt8) : NumberParts × List UInt8 :=
  let negative := num.head? = some 45
  let num := eat 48 (eat 45 num)
  let digits := numberInt num
  let num := num.drop digits.length
  let fraction := numberFraction num
  let num := if fraction = [] then num else num.drop (fraction.length + 1)
  let (expNegative, exponent, num) := numberExponent num
  (⟨negative, digits, fraction, expNegative, exponent⟩, num)

/-- `subscale=(subscale*10)+(c-'0')`, an `int` that wraps. -/
def subscaleStep (subscale : ℤ) (c : UInt8) : ℤ := toInt32 (toInt32 (subscale * 10) + (c.toNat - 48))

/-- What `parse_number` computes from what it reads. -/
def numberValue (fp : Doubles ν) (parts : NumberParts) : ν :=
  let sign := fp.ofInt (if parts.negative then -1 else 1)
  let n := parts.fraction.foldl fp.shiftIn (parts.digits.foldl fp.shiftIn (fp.ofInt 0))
  let scale := parts.fraction.foldl (fun scale _ => fp.sub scale (fp.ofInt 1)) (fp.ofInt 0)
  let signsubscale := if parts.expNegative then -1 else 1
  let subscale := parts.exponent.foldl subscaleStep 0
  fp.mul (fp.mul sign n)
    (fp.pow (fp.ofInt 10) (fp.add scale (fp.ofInt (toInt32 (subscale * signsubscale)))))

/-- `parse_number`: the double, and the text behind it. -/
def parseNumber (fp : Doubles ν) (num : List UInt8) : ν × List UInt8 :=
  (numberValue fp (scanNumber num).1, (scanNumber num).2)

/-! ## Values -/

mutual

/-- `parse_value`, with a bound on the nested calls and the rounds of their loops. -/
def parseValue (fp : Doubles ν) (junk : ℕ → ℕ × ℕ) : ℕ → List UInt8 → Scanned (Json ν)
  | 0, _ => .undefined
  | n + 1, value =>
      if (bytes "null").isPrefixOf value then .done .null (value.drop 4)
      else if (bytes "false").isPrefixOf value then .done (.bool false) (value.drop 5)
      else if (bytes "true").isPrefixOf value then .done (.bool true) (value.drop 4)
      else
        match value with
        | [] => .undefined
        | c :: text =>
            if c = 34 then (parseString junk (c :: text)).map .string
            else if c = 45 ∨ decDigit c then
              .done (.number (parseNumber fp (c :: text)).1) (parseNumber fp (c :: text)).2
            else if c = 91 then
              match skip text with
              | [] => .undefined
              | d :: text =>
                  if d = 93 then .done (.array []) text
                  else (parseArray fp junk n (d :: text)).map .array
            else if c = 123 then
              match skip text with
              | [] => .undefined
              | d :: text =>
                  if d = 125 then .done (.object []) text
                  else (parseObject fp junk n (d :: text)).map .object
            else .fail

/-- `parse_array`, from an item on. -/
def parseArray (fp : Doubles ν) (junk : ℕ → ℕ × ℕ) : ℕ → List UInt8 → Scanned (List (Json ν))
  | 0, _ => .undefined
  | n + 1, value =>
      (parseValue fp junk n (skip value)).bind fun child rest =>
        match skip rest with
        | [] => .undefined
        | c :: rest =>
            if c = 44 then (parseArray fp junk n rest).map (child :: ·)
            else if c = 93 then .done [child] rest
            else .fail

/-- `parse_object`, from the name of a member on. -/
def parseObject (fp : Doubles ν) (junk : ℕ → ℕ × ℕ) :
    ℕ → List UInt8 → Scanned (List (CStr × Json ν))
  | 0, _ => .undefined
  | n + 1, value =>
      (parseString junk (skip value)).bind fun string rest =>
        match skip rest with
        | [] => .undefined
        | c :: rest =>
            if c ≠ 58 then .fail
            else
              (parseValue fp junk n (skip rest)).bind fun child rest =>
                match skip rest with
                | [] => .undefined
                | c :: rest =>
                    if c = 44 then (parseObject fp junk n rest).map ((string, child) :: ·)
                    else if c = 125 then .done [(string, child)] rest
                    else .fail

end

/-- `cJSON_Parse`. -/
def cJSONParse (fp : Doubles ν) (junk : ℕ → ℕ × ℕ) (value : List UInt8) : Scanned (Json ν) :=
  parseValue fp junk (2 * value.length + 1) (skip value)

end EasyIpc
