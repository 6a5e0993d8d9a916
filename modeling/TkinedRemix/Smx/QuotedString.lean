import TkinedRemix.Snmp.BerCore

/-!
The strings of the SMX protocol, `tnmSmx.c`, quoted or hexadecimal. The parsers decode a string in place: what
they have passed is kept with the bytes they wrote over it.
-/

namespace Tnm

open List Function

def backslash : UInt8 := 0x5c
def dquote : UInt8 := 0x22
def htab : UInt8 := 0x09
def lineFeed : UInt8 := 0x0a
def formFeed : UInt8 := 0x0c
def carriageReturn : UInt8 := 0x0d
def letterN : UInt8 := 0x6e
def letterR : UInt8 := 0x72
def letterT : UInt8 := 0x74

def vchar (byte : UInt8) : Bool := 0x21 ≤ byte && byte ≤ 0x7e
def wsp (byte : UInt8) : Bool := byte == 0x20 || byte == 0x09

def hexDigitByte (digit : Nat) : UInt8 := UInt8.ofNat (if digit < 10 then 0x30 + digit else 0x57 + digit)

def hexDigitBytes : Nat → Nat → Octets
  | 0, _ => []
  | count + 1, number => hexDigitBytes count (number / 16) ++ [hexDigitByte (number % 16)]

/-- What sprintf writes for the format %02x: a char is signed and promoted to int. -/
def sprintf02x (byte : UInt8) : Octets :=
  if byte < 0x80 then hexDigitBytes 2 byte.toNat else hexDigitBytes 8 (0xffffff00 + byte.toNat)

/-- Every turn writes a whole C string at `p`, and then advances by two. -/
def appendHexLoop : Octets → Nat → Octets → Octets
  | [], p, line => line.take p
  | byte :: src, p, line => appendHexLoop src (p + 2) (line.take p ++ sprintf02x byte)

def smxAppendHexString (dst src : Octets) : Octets := appendHexLoop src dst.length dst

-- the source takes 0x0c for the carriage return
def quoteByte (byte : UInt8) : Octets :=
  if byte = backslash then [backslash, backslash]
  else if byte = htab then [backslash, letterT]
  else if byte = lineFeed then [backslash, letterN]
  else if byte = formFeed then [backslash, letterR]
  else if byte = dquote then [backslash, dquote]
  else [byte]

def smxAppendQuotedString (dst src : Octets) : Octets :=
  dst ++ dquote :: (src.flatMap quoteByte ++ [dquote])

def quotable (byte : UInt8) : Bool :=
  vchar byte || wsp byte || byte == htab || byte == carriageReturn || byte == lineFeed

def smxAppendHexOrQuotedString (dst src : Octets) : Octets :=
  if src.all quotable then smxAppendQuotedString dst src else smxAppendHexString dst src

def skipBlanks (line : Octets) : Octets := line.dropWhile fun byte => byte == 0x20 || byte == htab

def unescape (byte : UInt8) : UInt8 :=
  if byte = letterT then htab else if byte = letterN then lineFeed
  else if byte = letterR then carriageReturn else byte

/-- The bytes at `*dst` up to `ptr` are `passed`, those from `ptr` on are the first argument. -/
def parseQuotedLoop : Octets → UInt8 → Octets → Nat → Option (Octets × Octets)
  | [], _, _, _ => none
  | byte :: rest, last, passed, len =>
    if (vchar byte || wsp byte) && (byte != dquote || last == backslash) then
      let byte := if last = backslash then unescape byte else byte
      let passed := (passed ++ [byte]).set len byte
      let len := if byte ≠ backslash ∨ last = backslash then len + 1 else len
      parseQuotedLoop rest byte passed len
    else if byte = dquote then some (passed.take len, rest)
    else none

def smxParseQuotedString (line : Octets) : Option (Octets × Octets) :=
  match skipBlanks line with
  | [] => none
  | byte :: rest => if byte = dquote then parseQuotedLoop rest 0 [] 0 else none

def isXDigit (byte : UInt8) : Bool :=
  (0x30 ≤ byte && byte ≤ 0x39) || (0x41 ≤ byte && byte ≤ 0x46) || (0x61 ≤ byte && byte ≤ 0x66)

def isSpace (byte : UInt8) : Bool := byte == 0x20 || (0x09 ≤ byte && byte ≤ 0x0d)

def xDigitValue (byte : UInt8) : Nat :=
  if byte ≤ 0x39 then byte.toNat - 0x30 else if byte ≤ 0x46 then byte.toNat - 0x37 else byte.toNat - 0x57

/-- The format %2x on an even number of hexadecimal digits reads two of them at a time. -/
def parseHexLoop : Octets → Octets → Nat → Option (Octets × Octets)
  | high :: low :: rest, passed, len =>
    if isXDigit high && isXDigit low then
      let byte := UInt8.ofNat (xDigitValue high * 16 + xDigitValue low)
      parseHexLoop rest ((passed ++ [high, low]).set len byte) (len + 1)
    else if isSpace high then some (passed.take len, high :: low :: rest)
    else none
  | rest, passed, len => some (passed.take len, rest)

def smxParseHexString (line : Octets) : Option (Octets × Octets) :=
  let digits := skipBlanks line
  if digits.all isXDigit then
    if digits.length % 2 ≠ 0 ∨ digits.length = 0 then none else parseHexLoop digits [] 0
  else none

def smxParseHexOrQuotedString (line : Octets) : Option (Octets × Octets) :=
  match skipBlanks line with
  | byte :: _ => if byte = dquote then smxParseQuotedString line else smxParseHexString line
  | [] => smxParseHexString line

/-- The digits that are left of a byte: those of a negative one are overwritten but for two. -/
def hexPair (byte : UInt8) : Octets := (sprintf02x byte).take 2

def survivor (byte : UInt8) : UInt8 := if byte < 0x80 then byte else 0xff

theorem hexPair_read (byte : UInt8) : ∃ high low, hexPair byte = [high, low] ∧ isXDigit high ∧ isXDigit low ∧
    UInt8.ofNat (xDigitValue high * 16 + xDigitValue low) = survivor byte := by
  have read : (hexPair byte).length = 2 ∧ isXDigit ((hexPair byte).getD 0 0) ∧ isXDigit ((hexPair byte).getD 1 0) ∧
      UInt8.ofNat (xDigitValue ((hexPair byte).getD 0 0) * 16 + xDigitValue ((hexPair byte).getD 1 0)) =
        survivor byte := by
    revert byte
    decide +kernel
  obtain ⟨high, low, pair⟩ := length_eq_two.mp read.1
  rw [pair] at read
  exact ⟨high, low, pair, read.2⟩

theorem isXDigit_other {byte : UInt8} (isDigit : isXDigit byte) :
    byte ≠ 0x20 ∧ byte ≠ htab ∧ byte ≠ dquote ∧ byte ≠ carriageReturn ∧ byte ≠ lineFeed := by
  refine ⟨?_, ?_, ?_, ?_, ?_⟩ <;>
  · rintro rfl
    exact absurd isDigit (by decide)

theorem appendHexLoop_eq (src : Octets) : ∀ (p : Nat) (line : Octets), p ≤ line.length →
    appendHexLoop src p line = line.take p ++ src.flatMap hexPair := by
  induction src with
  | nil =>
    simp [appendHexLoop]
  | cons byte _ ih =>
    intro p line within
    have written : 2 ≤ (sprintf02x byte).length := by
      obtain ⟨_, _, pair, _⟩ := hexPair_read byte
      have length := congrArg List.length pair
      simp only [hexPair, length_take, length_cons] at length
      omega
    have front : (line.take p ++ sprintf02x byte).take (p + 2) = line.take p ++ hexPair byte := by
      have length : (line.take p).length = p := length_take_of_le within
      rw [take_append, length, take_of_length_le (by omega), Nat.add_sub_cancel_left, hexPair]
    rw [appendHexLoop, ih, front, flatMap_cons, append_assoc]
    rw [length_append, length_take_of_le within]
    omega

theorem smxAppendHexString_eq (dst src : Octets) : smxAppendHexString dst src = dst ++ src.flatMap hexPair := by
  rw [smxAppendHexString, appendHexLoop_eq src _ _ (le_rfl), take_length]

theorem parseHexLoop_flatMap (src : Octets) : ∀ (passed : Octets) (len : Nat), len ≤ passed.length →
    parseHexLoop (src.flatMap hexPair) passed len = some (passed.take len ++ src.map survivor, []) := by
  induction src with
  | nil =>
    simp [parseHexLoop]
  | cons byte _ ih =>
    intro passed len within
    obtain ⟨high, low, pair, isHigh, isLow, value⟩ := hexPair_read byte
    rw [flatMap_cons, pair]
    simp only [cons_append, nil_append, parseHexLoop, isHigh, isLow, value]
    rw [ih _ _ (by simp; omega)]
    have written : ((passed ++ [high, low]).set len (survivor byte)).take (len + 1) =
        passed.take len ++ [survivor byte] := by
      rw [take_succ_eq_append_getElem (by simp; omega), getElem_set_self, take_set_of_le (le_rfl),
        take_append_of_le_length within]
    rw [written, append_assoc]
    rfl

def scanQuoted : Octets → UInt8 → Option (Octets × Octets)
  | [], _ => none
  | byte :: rest, last =>
    if (vchar byte || wsp byte) && (byte != dquote || last == backslash) then
      let byte := if last = backslash then unescape byte else byte
      let kept := if byte ≠ backslash ∨ last = backslash then [byte] else []
      (scanQuoted rest byte).map fun scanned => (kept ++ scanned.1, scanned.2)
    else if byte = dquote then some ([], rest)
    else none

theorem parseQuotedLoop_eq (rest : Octets) : ∀ (last : UInt8) (passed : Octets) (len : Nat), len ≤ passed.length →
    parseQuotedLoop rest last passed len =
      (scanQuoted rest last).map fun scanned => (passed.take len ++ scanned.1, scanned.2) := by
  induction rest with
  | nil =>
    intro last passed len within
    rfl
  | cons byte _ ih =>
    intro last passed len within
    rw [parseQuotedLoop, scanQuoted]
    split
    next inside =>
      generalize (if last = backslash then unescape byte else byte) = stored
      have below : (if stored ≠ backslash ∨ last = backslash then len + 1 else len) ≤
          ((passed ++ [stored]).set len stored).length := by
        simp only [length_set, length_append, length_singleton]
        split <;> omega
      rw [ih _ _ _ below, Option.map_map]
      congr 1
      funext scanned
      simp only [comp_apply]
      split
      · rw [take_succ_eq_append_getElem (by simp; omega), getElem_set_self,
          take_set_of_le (le_rfl), take_append_of_le_length within, append_assoc]
      · rw [take_set_of_le (le_rfl), take_append_of_le_length within, nil_append]
    next outside =>
      split
      · simp
      · rfl

/-- Bytes that are written with an escape, and letters that are read as one. -/
def mangled (byte : UInt8) : Bool :=
  byte == backslash || byte == htab || byte == lineFeed || byte == dquote ||
    byte == letterT || byte == letterN || byte == letterR

def SafelyQuoted (escaped : Bool) : Octets → Prop
  | [] => escaped = false
  | byte :: src => byte ≠ carriageReturn ∧ (escaped = true → mangled byte = false) ∧
      SafelyQuoted (byte == backslash) src

def plain (byte : UInt8) : Bool :=
  quotable byte && byte != carriageReturn && byte != backslash && byte != htab && byte != lineFeed && byte != dquote

variable {byte : UInt8}

theorem plain_spec (isPlain : plain byte) : quoteByte byte = [byte] ∧ (vchar byte || wsp byte) ∧ byte ≠ dquote ∧
    byte ≠ backslash ∧ (unescape byte = byte ↔ mangled byte = false) := by
  revert byte
  decide +kernel

variable {last : UInt8}

theorem scanQuoted_plain (isPlain : plain byte) (rest : Octets) (unescaped : last ≠ backslash) :
    scanQuoted (byte :: rest) last = (scanQuoted rest byte).map fun scanned => (byte :: scanned.1, scanned.2) := by
  obtain ⟨_, shown, notQuote, other, _⟩ := plain_spec isPlain
  simp [scanQuoted, shown, notQuote, unescaped, other]

theorem scanQuoted_escaped (shown : vchar byte || wsp byte) (rest : Octets) : scanQuoted (byte :: rest) backslash =
      (scanQuoted rest (unescape byte)).map fun scanned => (unescape byte :: scanned.1, scanned.2) := by
  simp [scanQuoted, shown]

theorem scanQuoted_backslash (rest : Octets) (unescaped : last ≠ backslash) :
    scanQuoted (backslash :: rest) last = scanQuoted rest backslash := by
  have shown : vchar backslash = true := by decide
  have other : backslash ≠ dquote := by decide
  cases scanned : scanQuoted rest backslash <;> simp [scanQuoted, shown, other, unescaped, scanned]

section

variable (isQuotable : quotable byte) (other : byte ≠ carriageReturn)
include isQuotable other

theorem quoteByte_special (special : plain byte = false) :
    ∃ letter, quoteByte byte = [backslash, letter] ∧ vchar letter ∧ unescape letter = byte ∧ mangled byte := by
  have known : byte = backslash ∨ byte = htab ∨ byte = lineFeed ∨ byte = dquote := by
    by_contra none
    simp only [not_or] at none
    simp [plain, isQuotable, other, none] at special
  rcases known with rfl | rfl | rfl | rfl
  all_goals exact ⟨_, rfl, by decide⟩

theorem scanQuoted_quoteByte (unescaped : last ≠ backslash) (rest : Octets) : scanQuoted (quoteByte byte ++ rest) last =
      (scanQuoted rest byte).map fun scanned => (byte :: scanned.1, scanned.2) := by
  cases isPlain : plain byte with
  | true => rw [(plain_spec isPlain).1, singleton_append, scanQuoted_plain isPlain rest unescaped]
  | false =>
    obtain ⟨_, written, shown, read, _⟩ := quoteByte_special isQuotable other isPlain
    rw [written, cons_append, singleton_append, scanQuoted_backslash _ unescaped,
      scanQuoted_escaped (by simp [shown]), read]

theorem scanQuoted_special (special : plain byte = false) (rest : Octets) :
    scanQuoted (quoteByte byte ++ rest) backslash =
      (scanQuoted rest byte).map fun scanned => (backslash :: byte :: scanned.1, scanned.2) := by
  obtain ⟨_, written, shown, read, _⟩ := quoteByte_special isQuotable other special
  have itself : unescape backslash = backslash := by decide
  rw [written, cons_append, singleton_append, scanQuoted_escaped (by decide), itself,
    scanQuoted_escaped (by simp [shown]), read, Option.map_map]
  rfl

end

variable {src : Octets}

theorem scanQuoted_length (quotables : src.all quotable) (clean : carriageReturn ∉ src) :
    ∀ {last : UInt8} {out rest : Octets}, scanQuoted (src.flatMap quoteByte ++ [dquote]) last = some (out, rest) →
      src.length ≤ out.length := by
  induction src with
  | nil => exact fun _ => Nat.zero_le _
  | cons byte _ ih =>
    intro last _ _ scanned
    rw [all_cons, Bool.and_eq_true] at quotables
    rw [mem_cons, not_or] at clean
    have later := @ih quotables.2 clean.2
    have other : byte ≠ carriageReturn := Ne.symm clean.1
    have stored : ∃ (kept : Octets) (next : UInt8), 0 < kept.length ∧ ∀ more, scanQuoted (quoteByte byte ++ more) last =
        (scanQuoted more next).map fun scanned => (kept ++ scanned.1, scanned.2) := by
      by_cases escaped : last = backslash
      · subst escaped
        cases isPlain : plain byte with
        | true =>
          have ⟨written, shown, _⟩ := plain_spec isPlain
          rw [written]
          exact ⟨[unescape byte], _, by simp, scanQuoted_escaped shown⟩
        | false => exact ⟨[backslash, byte], byte, by simp, scanQuoted_special quotables.1 other isPlain⟩
      · exact ⟨[byte], byte, by simp, scanQuoted_quoteByte quotables.1 other escaped⟩
    obtain ⟨kept, next, positive, stored⟩ := stored
    rw [flatMap_cons, append_assoc, stored, Option.map_eq_some_iff] at scanned
    obtain ⟨⟨_, _⟩, found, same⟩ := scanned
    cases same
    have longer := later found
    simp only [length_append, length_cons]
    omega

theorem map_cons_eq_some {head : UInt8} {scan : Option (Octets × Octets)} :
    (scan.map fun scanned => (head :: scanned.1, scanned.2)) = some (byte :: src, []) ↔
      head = byte ∧ scan = some (src, []) := by
  rcases scan with _ | ⟨_, _⟩
  · simp
  · simp [and_assoc]

theorem scanQuoted_iff (quotables : src.all quotable) (clean : carriageReturn ∉ src) :
    ∀ last, scanQuoted (src.flatMap quoteByte ++ [dquote]) last = some (src, []) ↔
      SafelyQuoted (last == backslash) src := by
  induction src with
  | nil =>
    intro last
    by_cases escaped : last = backslash
    · subst escaped
      have unterminated : scanQuoted [dquote] backslash = none := by decide
      simp [unterminated, SafelyQuoted]
    · have shown : scanQuoted [dquote] last = some ([], []) := by
        simp [scanQuoted, escaped]
      simp [shown, SafelyQuoted, escaped]
  | cons byte _ ih =>
    intro last
    rw [all_cons, Bool.and_eq_true] at quotables
    rw [mem_cons, not_or] at clean
    have other : byte ≠ carriageReturn := Ne.symm clean.1
    have later := ih quotables.2 clean.2 byte
    rw [flatMap_cons, append_assoc, SafelyQuoted, ← later]
    by_cases escaped : last = backslash
    · subst escaped
      cases isPlain : plain byte with
      | true =>
        have ⟨written, shown, _, _, kept⟩ := plain_spec isPlain
        rw [written, singleton_append, scanQuoted_escaped shown, map_cons_eq_some, ← kept]
        constructor
        · rintro ⟨same, scanned⟩
          rw [same] at scanned
          exact ⟨other, fun _ => same, scanned⟩
        · rintro ⟨_, same, scanned⟩
          rw [same (by decide)]
          exact ⟨rfl, scanned⟩
      | false =>
        obtain ⟨_, _, _, _, isMangled⟩ := quoteByte_special quotables.1 other isPlain
        rw [scanQuoted_special quotables.1 other isPlain]
        constructor
        · intro scanned
          rw [Option.map_eq_some_iff] at scanned
          obtain ⟨⟨_, _⟩, found, same⟩ := scanned
          -- one byte too many is stored, and none is ever missing behind it
          have longer := scanQuoted_length quotables.2 clean.2 found
          simp only [Prod.mk.injEq, List.cons.injEq] at same
          rw [← same.1.2, length_cons] at longer
          omega
        · rintro ⟨_, unmangled, _⟩
          rw [unmangled (by decide)] at isMangled
          cases isMangled
    · rw [scanQuoted_quoteByte quotables.1 other escaped]
      simp [escaped, other]

theorem SafelyQuoted.clean : ∀ {escaped : Bool}, SafelyQuoted escaped src → carriageReturn ∉ src := by
  induction src with
  | nil => exact fun _ => not_mem_nil
  | cons _ _ ih =>
    intro _ safe
    rw [mem_cons, not_or]
    exact ⟨Ne.symm safe.1, ih safe.2.2⟩

def oneLine (text : Octets) : Prop := carriageReturn ∉ text ∧ lineFeed ∉ text

theorem flatMap_oneLine {write : UInt8 → Octets} (each : ∀ byte ∈ src, oneLine (write byte)) :
    oneLine (src.flatMap write) := by
  simp only [oneLine, mem_flatMap, not_exists, not_and]
  exact ⟨fun byte member => (each byte member).1, fun byte member => (each byte member).2⟩

theorem hexPair_oneLine (byte : UInt8) : oneLine (hexPair byte) := by
  obtain ⟨_, _, pair, isHigh, isLow, _⟩ := hexPair_read byte
  obtain ⟨_, _, _, highReturn, highFeed⟩ := isXDigit_other isHigh
  obtain ⟨_, _, _, lowReturn, lowFeed⟩ := isXDigit_other isLow
  simp [oneLine, pair, highReturn.symm, highFeed.symm, lowReturn.symm, lowFeed.symm]

theorem quoteByte_oneLine (other : byte ≠ carriageReturn) : oneLine (quoteByte byte) := by
  unfold quoteByte oneLine
  split_ifs with _ _ notFeed
  case neg => simp [other.symm, Ne.symm notFeed]
  all_goals decide

theorem quoted_oneLine_iff (src : Octets) : oneLine (smxAppendQuotedString [] src) ↔ carriageReturn ∉ src := by
  constructor
  · intro lines inside
    apply lines.1
    have itself : carriageReturn ∈ quoteByte carriageReturn := by decide
    simp only [smxAppendQuotedString, nil_append, mem_cons, mem_append]
    exact .inr (.inl (mem_flatMap.mpr ⟨_, inside, itself⟩))
  · intro clean
    have lines : oneLine (src.flatMap quoteByte) :=
      flatMap_oneLine fun byte member => quoteByte_oneLine fun same => clean (same ▸ member)
    have quotes : carriageReturn ≠ dquote ∧ lineFeed ≠ dquote := by decide
    simp [oneLine, smxAppendQuotedString, lines.1, lines.2, quotes.1, quotes.2]

theorem parse_quoted (src : Octets) : smxParseHexOrQuotedString (smxAppendQuotedString [] src) =
    scanQuoted (src.flatMap quoteByte ++ [dquote]) 0 := by
  have blanks : skipBlanks (smxAppendQuotedString [] src) = smxAppendQuotedString [] src := by
    have first : dquote ≠ 0x20 ∧ dquote ≠ htab := by decide
    simp [skipBlanks, smxAppendQuotedString, first.1, first.2]
  rw [smxParseHexOrQuotedString]
  simp only [smxAppendQuotedString, nil_append]
  rw [smxParseQuotedString, ← nil_append (dquote :: _), ← smxAppendQuotedString, blanks]
  simp only [smxAppendQuotedString, nil_append]
  rw [parseQuotedLoop_eq _ _ _ _ (Nat.zero_le _)]
  simp

theorem hexPairs_digits (src : Octets) : (src.flatMap hexPair).all isXDigit ∧
    (src.flatMap hexPair).length = 2 * src.length := by
  induction src with
  | nil => exact ⟨rfl, rfl⟩
  | cons byte _ ih =>
    obtain ⟨_, _, pair, isHigh, isLow, _⟩ := hexPair_read byte
    rw [flatMap_cons, pair]
    refine ⟨by simp [isHigh, isLow, ih.1], ?_⟩
    simp only [length_append, length_cons, length_nil]
    omega

theorem parse_hex (filled : src ≠ []) :
    smxParseHexOrQuotedString (smxAppendHexString [] src) = some (src.map survivor, []) := by
  have ⟨digits, length⟩ := hexPairs_digits src
  have positive : 0 < src.length := length_pos_iff.mpr filled
  obtain ⟨first, rest, shape⟩ : ∃ first rest, src.flatMap hexPair = first :: rest := by
    cases shape : src.flatMap hexPair with
    | nil =>
      rw [shape, length_nil] at length
      omega
    | cons first rest => exact ⟨first, rest, rfl⟩
  have isDigit : isXDigit first := by
    rw [shape, all_cons, Bool.and_eq_true] at digits
    exact digits.1
  have known := isXDigit_other isDigit
  have blanks : skipBlanks (src.flatMap hexPair) = src.flatMap hexPair := by
    simp [skipBlanks, shape, known.1, known.2.1]
  rw [smxAppendHexString_eq, nil_append, smxParseHexOrQuotedString, blanks, shape]
  simp only [if_neg known.2.2.1]
  rw [← shape, smxParseHexString, blanks, if_pos digits, if_neg (by omega),
    parseHexLoop_flatMap _ _ _ (Nat.zero_le _)]
  rfl

/-- The strings that are read back as they were written. -/
def Survives (src : Octets) : Prop :=
  if src.all quotable then SafelyQuoted false src else ∀ byte ∈ src, survivor byte = byte

theorem hexOrQuoted_append (dst src : Octets) :
    smxAppendHexOrQuotedString dst src = dst ++ smxAppendHexOrQuotedString [] src := by
  unfold smxAppendHexOrQuotedString
  split
  · rfl
  · rw [smxAppendHexString_eq, smxAppendHexString_eq, nil_append]

/-- A byte string stays on its line and is read back exactly when it survives. -/
theorem smxHexOrQuoted_roundTrip (dst src : Octets) : ∃ text, smxAppendHexOrQuotedString dst src = dst ++ text ∧
      ((carriageReturn ∉ text ∧ lineFeed ∉ text ∧ smxParseHexOrQuotedString text = some (src, [])) ↔ Survives src) := by
  refine ⟨_, hexOrQuoted_append dst src, ?_⟩
  rw [← and_assoc, ← oneLine, smxAppendHexOrQuotedString, Survives]
  by_cases quotables : src.all quotable = true
  · rw [if_pos quotables, if_pos quotables, quoted_oneLine_iff, parse_quoted]
    constructor
    · rintro ⟨clean, scanned⟩
      exact (scanQuoted_iff quotables clean 0).mp scanned
    · intro safe
      exact ⟨safe.clean, (scanQuoted_iff quotables safe.clean 0).mpr safe⟩
  · have filled : src ≠ [] := fun empty => quotables (by rw [empty]; rfl)
    rw [if_neg quotables, if_neg quotables, parse_hex filled]
    have lines : oneLine (smxAppendHexString [] src) := by
      rw [smxAppendHexString_eq]
      exact flatMap_oneLine fun byte _ => hexPair_oneLine byte
    simp only [lines, true_and, Option.some.injEq, Prod.mk.injEq, and_true]
    have each := map_inj_left (l := src) (f := survivor) (g := id)
    rwa [List.map_id] at each

/-- A carriage return, a backslash at the end and the byte 0x80 are not read back. -/
theorem smxHexOrQuoted_fails : carriageReturn ∈ smxAppendHexOrQuotedString [] [carriageReturn] ∧
      smxParseHexOrQuotedString (smxAppendHexOrQuotedString [] [backslash]) = none ∧
      smxParseHexOrQuotedString (smxAppendHexOrQuotedString [] [0x80]) = some ([0xff], []) := by
  decide

end Tnm
