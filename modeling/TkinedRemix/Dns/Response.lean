import TkinedRemix.Dns.Query

/-!
What a well-formed response contains, and what `DnsDoQuery` makes of it: it reads the first section that has
any records, and the type of the first one that can be stored decides which are kept.
-/

namespace Tnm.Dns

open List

structure Record where
  owner : List Char
  type : Nat
  start : Nat
  rdlength : Nat
  data : List Entry

/-- Character strings that fill `length` octets. -/
def CharStrings (answer : Octets) : Nat → Nat → List Entry → Prop
  | _, length, [] => length = 0
  | ptr, length, entry :: rest => ∃ left, length = 1 + octet answer ptr + left ∧
      entry = .str (cString answer (ptr + 1) (octet answer ptr)) ∧
      CharStrings answer (ptr + 1 + octet answer ptr) left rest

section

variable (resolver : Resolver) (answer : Octets)

inductive Rdata (record : Record) : Prop where
  | name (text : List Char) (isName : record.type = tNs ∨ record.type = tCname ∨ record.type = tPtr)
      (expands : resolver.dnExpand answer record.start = some (record.rdlength, text))
      (data : record.data = [.str text])
  | text (isTxt : record.type = tTxt) (filled : record.data ≠ [])
      (strings : CharStrings answer record.start record.rdlength record.data)
  | address (isA : record.type = tA) (length : record.rdlength = 4)
      (data : record.data = [.addr (getLong answer record.start)])
  | authority (isSoa : record.type = tSoa) (mlen rlen : Nat) (mname rname : List Char)
      (mexpands : resolver.dnExpand answer record.start = some (mlen, mname))
      (rexpands : resolver.dnExpand answer (record.start + mlen) = some (rlen, rname))
      (length : record.rdlength = mlen + rlen + 5 * 4) (data : record.data = [.str mname])
  | host (isHinfo : record.type = tHinfo) (two : record.data.length = 2)
      (strings : CharStrings answer record.start record.rdlength record.data)
  | exchange (isMx : record.type = tMx) (len : Nat) (text : List Char)
      (expands : resolver.dnExpand answer (record.start + 2) = some (len, text)) (length : record.rdlength = 2 + len)
      (data : record.data = [.str (mxText text (getShort answer record.start))])
  | other (isOther : record.type ∉ [tNs, tCname, tPtr, tTxt, tA, tSoa, tHinfo, tMx]) (data : record.data = [])

/-- The record stands at `ptr`. An answer has at most 524 octets, so its lengths are short. -/
structure RecordAt (ptr : Nat) (record : Record) : Prop where
  expands : ∃ llen, resolver.dnExpand answer ptr = some (llen, record.owner) ∧ record.start = ptr + llen + 10 ∧
    getShort answer (ptr + llen) = record.type ∧ getShort answer (ptr + llen + 8) = record.rdlength
  short : record.rdlength < 0x8000
  rdata : Rdata resolver answer record

def Record.behind (record : Record) : Nat := record.start + record.rdlength

def RecordsAt : Nat → List Record → Prop
  | _, [] => True
  | ptr, record :: records => RecordAt resolver answer ptr record ∧ RecordsAt record.behind records

def RecordsBegin (ptr : Nat) : Prop :=
  (qdcount answer = 0 ∧ ptr = 12) ∨
    (0 < qdcount answer ∧ ∃ len name, resolver.dnExpand answer 12 = some (len, name) ∧ ptr = 12 + len + 4)

structure Response (answers authority additional : List Record) : Prop where
  noError : rcode answer = 0
  answerCount : ancount answer = answers.length
  authorityCount : nscount answer = authority.length
  additionalCount : arcount answer = additional.length
  records : ∃ ptr, RecordsBegin resolver answer ptr ∧ RecordsAt resolver answer ptr (answers ++ authority ++ additional)

end

def known (queryType type : Nat) : Bool :=
  type ∈ [tNs, tTxt, tA, tSoa, tHinfo, tPtr, tMx] || (type == tCname && queryType == tCname)

def kindAfter (queryType : Nat) (kind : Option Nat) (record : Record) : Option Nat :=
  kind.or (if known queryType record.type then some record.type else none)

def kindOf (queryType : Nat) (records : List Record) : Option Nat :=
  records.foldl (kindAfter queryType) none

def selected (kind : Option Nat) (records : List Record) : List Entry :=
  (records.filter fun record => kind == some record.type).flatMap Record.data

def resultOf (queryType : Nat) (records : List Record) : Reply :=
  ⟨kindOf queryType records, selected (kindOf queryType records) records⟩

def Orderly (queryString : List Char) (kind : Option Nat) (record : Record) : Prop :=
  (record.type = tTxt → record.data.length = 1) ∧
    (record.type = tHinfo → kind = none ∨ kind = some tHinfo) ∧
    (record.type = tA → queryString = record.owner → kind = none ∨ kind = some tA)

def AllOrderly (queryString : List Char) (queryType : Nat) : Option Nat → List Record → Prop
  | _, [] => True
  | kind, record :: records => Orderly queryString kind record ∧
      AllOrderly queryString queryType (kindAfter queryType kind record) records

def readSection (answers authority additional : List Record) : List Record :=
  if answers ≠ [] then answers else if authority ≠ [] then authority else additional

def Reply.taking (reply : Reply) (type : Nat) (data : List Entry) : Reply :=
  ⟨reply.type.or (some type), reply.entries ++ if reply.type.or (some type) = some type then data else []⟩

/-- The result structure has room for the data that is taken. -/
def Roomy (reply : Reply) : Prop := reply.entries.length ≤ maxResult ∧ ∀ entry ∈ reply.entries, entry.fits = true

variable {reply : Reply} {type : Nat}

theorem store_eq {entry : Entry} (roomy : Roomy ⟨some type, reply.entries ++ [entry]⟩) :
    reply.store type entry = .ok ⟨some type, reply.entries ++ [entry]⟩ := by
  have room : reply.entries.length < maxResult := by
    have total := roomy.1
    simp only [length_append, length_singleton] at total
    omega
  have fits : entry.fits = true := roomy.2 entry (by simp)
  simp [Reply.store, room, fits]

theorem offer_eq {entry : Entry} (roomy : Roomy (reply.taking type [entry])) :
    reply.offer type entry = .ok (reply.taking type [entry]) := by
  rcases reply with ⟨kind, entries⟩
  by_cases wanted : kind = none ∨ kind = some type
  · have stored : Reply.taking ⟨kind, entries⟩ type [entry] = ⟨some type, entries ++ [entry]⟩ := by
      rcases wanted with rfl | rfl <;> simp [Reply.taking]
    rw [stored] at roomy ⊢
    rw [Reply.offer, store_eq roomy]
    rcases wanted with rfl | rfl <;> simp [Reply.wants]
  · rw [not_or] at wanted
    obtain ⟨other, rfl⟩ := Option.ne_none_iff_exists'.mp wanted.1
    have different : other ≠ type := fun same => wanted.2 (by rw [same])
    simp [Reply.offer, Reply.wants, Reply.taking, different]

theorem wants_of (free : reply.type = none ∨ reply.type = some type) :
    reply.wants type = true ∧ ∀ data, reply.taking type data = ⟨some type, reply.entries ++ data⟩ := by
  rcases reply with ⟨_, _⟩
  rcases free with rfl | rfl <;> simp [Reply.wants, Reply.taking]

section

variable {resolver : Resolver} {answer : Octets} {queryString : List Char} {queryType : Nat} {reply : Reply}

variable {ptr len : Nat} {name : List Char}

theorem expand_eq (message : String) (expands : resolver.dnExpand answer ptr = some (len, name)) :
    expand resolver answer ptr message = .ok (len, name) := by
  simp [expand, expands]

theorem readName_eq {type : Nat} (message : String) (expands : resolver.dnExpand answer ptr = some (len, name))
    (roomy : Roomy (reply.taking type [.str name])) :
    readName resolver answer type ptr message reply = .ok (ptr + len, reply.taking type [.str name]) := by
  rw [readName, expand_eq message expands]
  simp [bind, Except.bind, offer_eq roomy]
  rfl

theorem readTxt_eq {length : Nat} {data : List Entry} (one : data.length = 1)
    (strings : CharStrings answer ptr length data) (roomy : Roomy (reply.taking tTxt data)) :
    readTxt answer ptr reply = .ok (ptr + length, reply.taking tTxt data) := by
  obtain ⟨_, rfl⟩ := length_eq_one_iff.mp one
  obtain ⟨left, _, rfl, rest⟩ := strings
  have nothing : left = 0 := rest
  have behind : ptr + length = ptr + 1 + octet answer ptr := by omega
  rw [readTxt, offer_eq roomy, behind]
  rfl

theorem readA_eq {owner : List Char} (orderly : queryString = owner → reply.type = none ∨ reply.type = some tA)
    (roomy : Roomy (reply.taking tA [.addr (getLong answer ptr)])) :
    readA answer queryString owner ptr reply = .ok (ptr + 4, reply.taking tA [.addr (getLong answer ptr)]) := by
  rw [readA]
  by_cases asked : queryString = owner
  · have taking := (wants_of (orderly asked)).2 [.addr (getLong answer ptr)]
    rw [taking] at roomy ⊢
    rw [if_pos asked, store_eq roomy]
    rfl
  · rw [if_neg asked, offer_eq roomy]
    rfl

theorem readSoa_eq {mlen rlen : Nat} {mname rname : List Char}
    (mexpands : resolver.dnExpand answer ptr = some (mlen, mname))
    (rexpands : resolver.dnExpand answer (ptr + mlen) = some (rlen, rname))
    (roomy : Roomy (reply.taking tSoa [.str mname])) :
    readSoa resolver answer ptr reply = .ok (ptr + mlen + rlen + 5 * 4, reply.taking tSoa [.str mname]) := by
  rw [readSoa, expand_eq _ mexpands]
  simp only [bind, Except.bind]
  rw [expand_eq _ rexpands]
  simp only [offer_eq roomy]
  rfl

theorem readHinfo_eq {length : Nat} {data : List Entry} (two : data.length = 2)
    (free : reply.type = none ∨ reply.type = some tHinfo) (strings : CharStrings answer ptr length data)
    (roomy : Roomy (reply.taking tHinfo data)) :
    readHinfo answer ptr reply = .ok (ptr + length, reply.taking tHinfo data) := by
  obtain ⟨_, _, rfl⟩ := length_eq_two.mp two
  obtain ⟨_, _, rfl, rest⟩ := strings
  obtain ⟨nothing, _, rfl, none⟩ := rest
  have ⟨wanted, taking⟩ := wants_of free
  rw [taking] at roomy ⊢
  have first : Roomy ⟨some tHinfo, reply.entries ++ [.str (cString answer (ptr + 1) (octet answer ptr))]⟩ := by
    refine ⟨?_, fun entry member => roomy.2 entry ?_⟩
    · have total := roomy.1
      simp only [length_append, length_cons] at total ⊢
      omega
    · simp only [mem_append, mem_cons] at member ⊢
      tauto
  have zero : nothing = 0 := none
  have behind : ptr + length = ptr + 1 + octet answer ptr + 1 + octet answer (ptr + 1 + octet answer ptr) := by omega
  rw [readHinfo, if_pos wanted, behind]
  dsimp only
  rw [store_eq first]
  simp only [bind, Except.bind]
  rw [store_eq]
  · simp [pure, Except.pure]
  · simpa using roomy

theorem readMx_eq (expands : resolver.dnExpand answer (ptr + 2) = some (len, name))
    (roomy : Roomy (reply.taking tMx [.str (mxText name (getShort answer ptr))])) : readMx resolver answer ptr reply =
      .ok (ptr + 2 + len, reply.taking tMx [.str (mxText name (getShort answer ptr))]) := by
  rw [readMx, expand_eq _ expands]
  simp only [bind, Except.bind, offer_eq roomy]
  rfl

def Reply.after (queryType : Nat) (reply : Reply) (record : Record) : Reply :=
  if known queryType record.type then reply.taking record.type record.data else reply

theorem readRdata_other (type : Nat) {owner : List Char} {rdlen : Nat} (other : type ≠ tCname) :
    readRdata resolver answer queryString queryType owner type rdlen ptr reply =
      readRdata resolver answer queryString tA owner type rdlen ptr reply := by
  have first : ¬ (queryType = tCname ∧ type = tCname) := fun both => other both.2
  have second : ¬ (tA = tCname ∧ type = tCname) := fun both => other both.2
  rw [readRdata, readRdata, if_neg first, if_neg second]

theorem readRdata_eq {record : Record} (rdata : Rdata resolver answer record) (short : record.rdlength < 0x8000)
    (orderly : Orderly queryString reply.type record) (roomy : Roomy (reply.after queryType record)) :
    readRdata resolver answer queryString queryType record.owner record.type record.rdlength record.start reply =
      .ok (record.behind, reply.after queryType record) := by
  rcases record with ⟨owner, _, start, rdlength, _⟩
  cases rdata with
  | name text isName expands isData =>
    dsimp only
    subst isData
    rcases isName with rfl | rfl | rfl
    · exact readName_eq _ expands roomy
    · by_cases asked : queryType = tCname
      · have stored : Reply.after queryType reply ⟨owner, tCname, start, rdlength, [.str text]⟩ =
            reply.taking tCname [.str text] := by simp [Reply.after, known, asked]
        rw [stored] at roomy ⊢
        rw [readRdata, if_neg (by decide), if_pos ⟨asked, rfl⟩, readName_eq _ expands roomy]
        rfl
      · have unasked : queryType ≠ 5 := asked
        have skipped : .after queryType reply ⟨owner, tCname, start, rdlength, [.str text]⟩ = reply := by
          simp [Reply.after, known, unasked, tCname, tNs, tTxt, tA, tSoa, tHinfo, tPtr, tMx]
        rw [skipped]
        simp [readRdata, unasked, skip, short, tCname, tNs, tTxt, tA, tSoa, tHinfo, tPtr, tMx, bind, Except.bind, pure,
          Except.pure, Record.behind]
    · rw [readRdata_other tPtr (by decide)]
      exact readName_eq _ expands roomy
  | text isTxt filled strings =>
    subst isTxt
    rw [readRdata_other tTxt (by decide)]
    exact readTxt_eq (orderly.1 rfl) strings roomy
  | address isA length isData =>
    dsimp only at isData
    subst isA isData length
    rw [readRdata_other tA (by decide)]
    exact readA_eq (orderly.2.2 rfl) roomy
  | authority isSoa mlen rlen _ _ mexpands rexpands length isData =>
    subst isSoa isData length
    have behind : start + mlen + rlen + 5 * 4 = start + (mlen + rlen + 5 * 4) := by omega
    rw [Record.behind, ← behind]
    rw [readRdata_other tSoa (by decide)]
    exact readSoa_eq mexpands rexpands roomy
  | host isHinfo two strings =>
    subst isHinfo
    rw [readRdata_other tHinfo (by decide)]
    exact readHinfo_eq two (orderly.2.1 rfl) strings roomy
  | exchange isMx _ _ expands length isData =>
    dsimp only at isMx isData
    subst isMx isData length
    rw [Record.behind, ← Nat.add_assoc]
    rw [readRdata_other tMx (by decide)]
    exact readMx_eq expands roomy
  | other isOther isData =>
    simp only [mem_cons, not_or] at isOther
    simp [readRdata, isOther, skip, short, bind, Except.bind, pure, Except.pure, Record.behind, Reply.after, known]

theorem after_entries (queryType : Nat) (records : List Record) : ∀ reply : Reply,
    ∃ more, (records.foldl (Reply.after queryType) reply).entries = reply.entries ++ more := by
  induction records with
  | nil => exact fun reply => ⟨[], by simp⟩
  | cons record _ ih =>
    intro reply
    obtain ⟨later, grown⟩ := ih (reply.after queryType record)
    rw [foldl_cons, grown]
    unfold Reply.after
    split
    · exact ⟨_, append_assoc reply.entries _ later⟩
    · exact ⟨later, rfl⟩

theorem Roomy.of_append {reply later : Reply} {more : List Entry} (grown : later.entries = reply.entries ++ more)
    (roomy : Roomy later) : Roomy reply := by
  obtain ⟨room, fits⟩ := roomy
  rw [grown] at room fits
  rw [length_append] at room
  exact ⟨by omega, fun entry member => fits entry (mem_append_left _ member)⟩

theorem after_type (queryType : Nat) (reply : Reply) (record : Record) :
    (reply.after queryType record).type = kindAfter queryType reply.type record := by
  unfold Reply.after kindAfter
  split <;> simp [Reply.taking]

theorem readRecords_eq (records : List Record) : ∀ (ptr : Nat) (reply : Reply), RecordsAt resolver answer ptr records →
    AllOrderly queryString queryType reply.type records → Roomy (records.foldl (Reply.after queryType) reply) →
    readRecords resolver answer queryString queryType records.length ptr reply =
      .ok (records.map Record.behind, records.foldl (Reply.after queryType) reply) := by
  induction records with
  | nil => exact fun _ _ _ _ _ => rfl
  | cons record records ih =>
    rintro _ reply ⟨stands, follow⟩ ⟨orderly, others⟩ roomy
    obtain ⟨_, expands, begins, isType, isLength⟩ := stands.expands
    obtain ⟨_, grown⟩ := after_entries queryType records (reply.after queryType record)
    rw [← after_type] at others
    have read := readRdata_eq stands.rdata stands.short orderly (roomy.of_append grown)
    have later := ih record.behind (reply.after queryType record) follow others roomy
    rw [length_cons, readRecords, expand_eq _ expands]
    simp only [bind, Except.bind]
    rw [isType, isLength, ← begins, read]
    simp only
    rw [later]
    rfl

theorem foldl_kind_some (queryType kind : Nat) (records : List Record) :
    records.foldl (kindAfter queryType) (some kind) = some kind := by
  induction records with
  | nil => rfl
  | cons _ _ ih => rw [foldl_cons, kindAfter, Option.some_or, ih]

theorem foldl_kind_known {queryType kind : Nat} {records : List Record}
    (found : records.foldl (kindAfter queryType) none = some kind) : known queryType kind = true := by
  induction records with
  | nil => cases found
  | cons _ _ ih =>
    rw [foldl_cons, kindAfter, Option.none_or] at found
    split at found
    next isKnown =>
      rw [foldl_kind_some] at found
      cases found
      exact isKnown
    next => exact ih found

theorem selected_cons (kind : Option Nat) (record : Record) (records : List Record) :
    selected kind (record :: records) = (if kind = some record.type then record.data else []) ++
      selected kind records := by
  by_cases same : kind = some record.type <;> simp [selected, same]

theorem foldl_after_some {queryType kind : Nat} (isKnown : known queryType kind = true) (records : List Record) :
    ∀ entries, records.foldl (Reply.after queryType) ⟨some kind, entries⟩ =
      ⟨some kind, entries ++ selected (some kind) records⟩ := by
  induction records with
  | nil => simp [selected]
  | cons record _ ih =>
    intro entries
    have step : Reply.after queryType ⟨some kind, entries⟩ record =
        ⟨some kind, entries ++ if some kind = some record.type then record.data else []⟩ := by
      by_cases same : kind = record.type
      · simp [Reply.after, Reply.taking, ← same, isKnown]
      · by_cases otherKnown : known queryType record.type
        · simp [Reply.after, Reply.taking, same]
        · simp [Reply.after, otherKnown, same]
    rw [foldl_cons, step, ih, selected_cons, append_assoc]

theorem foldl_after_eq (queryType : Nat) (records : List Record) :
    records.foldl (Reply.after queryType) ⟨none, []⟩ = resultOf queryType records := by
  unfold resultOf
  induction records with
  | nil => rfl
  | cons record records ih =>
    by_cases isKnown : known queryType record.type = true
    · have step : Reply.after queryType ⟨none, []⟩ record = ⟨some record.type, record.data⟩ := by
        simp [Reply.after, Reply.taking, isKnown]
      have kind : kindOf queryType (record :: records) = some record.type := by
        rw [kindOf, foldl_cons, kindAfter, if_pos isKnown, Option.none_or, foldl_kind_some]
      rw [foldl_cons, step, foldl_after_some isKnown, kind, selected_cons, if_pos rfl]
    · have step : Reply.after queryType ⟨none, []⟩ record = ⟨none, []⟩ := by
        simp [Reply.after, isKnown]
      have kind : kindOf queryType (record :: records) = kindOf queryType records := by
        rw [kindOf, foldl_cons, kindAfter, if_neg isKnown]
        rfl
      -- a type that is not stored is never the type of the result
      have different : kindOf queryType records ≠ some record.type := fun same =>
        isKnown (foldl_kind_known same)
      rw [foldl_cons, step, ih, kind, selected_cons, if_neg different, nil_append]

theorem RecordsAt.left {records others : List Record} : ∀ {ptr : Nat},
    RecordsAt resolver answer ptr (records ++ others) → RecordsAt resolver answer ptr records := by
  induction records with
  | nil => exact fun _ => trivial
  | cons _ _ ih => exact fun stand => ⟨stand.1, ih stand.2⟩

theorem firstRecord_eq (agrees : resolver.Agrees) (begins : RecordsBegin resolver answer ptr) :
    firstRecord resolver answer = ptr := by
  unfold firstRecord
  rcases begins with ⟨none, rfl⟩ | ⟨positive, _, _, expands, rfl⟩
  · rw [if_neg (by omega)]
  · rw [if_pos positive, agrees.skips _ _ _ _ expands]

theorem Response.readSection_at {answers authority additional : List Record}
    (response : Response resolver answer answers authority additional) (agrees : resolver.Agrees) :
    recordCount answer = (readSection answers authority additional).length ∧
      RecordsAt resolver answer (firstRecord resolver answer) (readSection answers authority additional) := by
  obtain ⟨_, begins, stand⟩ := response.records
  rw [firstRecord_eq agrees begins, recordCount, response.answerCount, response.authorityCount,
    response.additionalCount]
  unfold readSection
  by_cases none : answers = []
  · subst none
    by_cases more : authority = []
    · subst more
      exact ⟨by simp, by simpa using stand⟩
    · exact ⟨by simp [more], by simpa [more] using stand.left⟩
  · rw [append_assoc] at stand
    exact ⟨by simp [none], by simpa [none] using stand.left⟩

end

/-- The result is the data of those records of the first section that have the type of the first one. -/
theorem dnsDoQuery_selected {resolver : Resolver} (agrees : resolver.Agrees) (answer : Octets)
    (queryString : List Char) (queryType : Nat) {answers authority additional : List Record}
    (response : Response resolver answer answers authority additional)
    (orderly : AllOrderly queryString queryType none (readSection answers authority additional))
    (roomy : Roomy (resultOf queryType (readSection answers authority additional))) :
    (answers ≠ [] ∨ missingText queryType = none → dnsDoQuery resolver answer queryString queryType =
      .ok ((readSection answers authority additional).map Record.behind,
        resultOf queryType (readSection answers authority additional))) ∧
    ∀ text, answers = [] → missingText queryType = some text →
      dnsDoQuery resolver answer queryString queryType = .error (.message text) := by
  obtain ⟨count, stand⟩ := response.readSection_at agrees
  constructor
  · intro passedOn
    have dispatch : dnsDoQuery resolver answer queryString queryType = readRecords resolver answer queryString queryType
        (recordCount answer) (firstRecord resolver answer) ⟨none, []⟩ := by
      rw [dnsDoQuery, if_neg (by simp [response.noError])]
      split
      next text none missing =>
        rw [response.answerCount, length_eq_zero_iff] at none
        rcases passedOn with filled | free
        · exact absurd none filled
        · cases free.symm.trans missing
      next => rfl
    rw [← foldl_after_eq] at roomy ⊢
    rw [dispatch, count, readRecords_eq _ _ _ stand orderly roomy]
  · intro _ none missing
    rw [dnsDoQuery, if_neg (by simp [response.noError]), response.answerCount, none, missing]
    rfl

def plainName : Nat → Octets → Nat → Option (Nat × List Char)
  | 0, _, _ => none
  | fuel + 1, answer, ptr =>
    let len := octet answer ptr
    if len = 0 then some (1, [])
    else if len < 64 then
      (plainName fuel answer (ptr + 1 + len)).map fun rest =>
        (1 + len + rest.1, cString answer (ptr + 1) len ++ if rest.2 = [] then [] else '.' :: rest.2)
    else none

def plainNames : Resolver := ⟨plainName 128, fun answer ptr => (plainName 128 answer ptr).map Prod.fst⟩

theorem plainNames_agrees : plainNames.Agrees where
  skips := by
    intro answer ptr len name expands
    change (plainName 128 answer ptr).map Prod.fst = some len
    rw [show plainName 128 answer ptr = some (len, name) from expands]
    rfl

def exchangeAnswer : Octets :=
  [0, 1, 0x80, 0, 0, 0, 0, 2, 0, 0, 0, 0, 0, 0, 15, 0, 1, 0, 0, 0, 9, 0, 5, 0, 10, 1, 97, 0,
    0, 0, 1, 0, 1, 0, 0, 0, 9, 0, 4, 10, 0, 0, 1]

def exchanger : Record := ⟨[], tMx, 23, 5, [.str (mxText ['a'] 10)]⟩

def exchangerAddress : Record := ⟨[], tA, 39, 4, [.addr 0x0a000001]⟩

theorem exchangeAnswer_response : Response plainNames exchangeAnswer [exchanger, exchangerAddress] [] [] where
  noError := by decide
  answerCount := by decide
  authorityCount := by decide
  additionalCount := by decide
  records := by
    refine ⟨12, .inl ⟨by decide, rfl⟩, ⟨⟨1, by decide, by decide, by decide, by decide⟩, by decide, ?_⟩,
      ⟨⟨1, by decide, by decide, by decide, by decide⟩, by decide, ?_⟩, trivial⟩
    · exact .exchange rfl 3 ['a'] (by decide) rfl (by decide)
    · exact .address rfl rfl (by decide)

/-- Both records are read, and the data of the type that was asked for is the result. -/
theorem dnsDoQuery_exchange : Response plainNames exchangeAnswer [exchanger, exchangerAddress] [] [] ∧
    dnsDoQuery plainNames exchangeAnswer ['x'] tMx = .ok ([28, 43], ⟨some tMx, [.str (mxText ['a'] 10)]⟩) := by
  refine ⟨exchangeAnswer_response, ?_⟩
  have orderly : AllOrderly ['x'] tMx none [exchanger, exchangerAddress] := by
    refine ⟨⟨?_, ?_, ?_⟩, ⟨?_, ?_, ?_⟩, trivial⟩
    · exact fun isTxt => absurd isTxt (by decide)
    · exact fun isHinfo => absurd isHinfo (by decide)
    · exact fun isA => absurd isA (by decide)
    · exact fun isTxt => absurd isTxt (by decide)
    · exact fun isHinfo => absurd isHinfo (by decide)
    · exact fun _ same => absurd same (by decide)
  exact (dnsDoQuery_selected plainNames_agrees exchangeAnswer ['x'] tMx exchangeAnswer_response orderly
    ⟨by decide, by decide⟩).1 (.inl (by decide))

def authorityAnswer : Octets :=
  [0, 1, 0x80, 0, 0, 0, 0, 0, 0, 1, 0, 0, 0, 0, 6, 0, 1, 0, 0, 0, 9, 0, 24, 1, 97, 0, 0] ++ List.replicate 20 0

/-- An address is asked for, there is no answer, and the result names the primary server. -/
theorem dnsDoQuery_authority : ancount authorityAnswer = 0 ∧
      dnsDoQuery plainNames authorityAnswer ['x'] tA = .ok ([47], ⟨some tSoa, [.str ['a']]⟩) := by
  decide

end Tnm.Dns
