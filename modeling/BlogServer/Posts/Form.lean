/-
The form of a blog post: `urldecode` and `parseRequestBody` of `blog_upload_request_handler`, and the encoding they
read.

`EncodedAs` is what an `application/x-www-form-urlencoded` component may look like, `urlencode` the encoding a browser
writes. The splitter drops every `=` after the first of a pair and ends a pair at every `&`, so no value it stores has
either byte in it (`parseRequestBody_clean`).

- `urldecode_of_encodedAs`: `urldecode` reads every encoding of a string as that string.
- `parseRequestBody_pairs`: splitting undoes joining when neither key nor value has a delimiter in it.
-/
import BlogServer.Http.Message

namespace BlogServer.Posts

open BlogServer.Byte BlogServer.Decimal BlogServer.Http

/-! ## Decoding -/

/-- `from_hex` -/
def fromHex (ch : UInt8) : UInt8 :=
  if ch ≤ 57 ∧ 48 ≤ ch then ch - 48
  else if ch ≤ 102 ∧ 97 ≤ ch then ch - 87
  else if ch ≤ 70 ∧ 65 ≤ ch then ch - 55
  else 0

/-- `urldecode` -/
def urldecode : Bytes → Bytes
  | [] => []
  | c :: ch1 :: ch2 :: str =>
    if c = PLUS then SP :: urldecode (ch1 :: ch2 :: str)
    else if c = PERCENT then (fromHex ch1 <<< 4 ||| fromHex ch2) :: urldecode str
    else c :: urldecode (ch1 :: ch2 :: str)
  -- a `%` with fewer than two bytes after it stays
  | c :: str => (if c = PLUS then SP else c) :: urldecode str

theorem urldecode_literal {c : UInt8} (hplus : c ≠ PLUS) (hpercent : c ≠ PERCENT) (str : Bytes) :
    urldecode (c :: str) = c :: urldecode str := by
  match str with
  | [] | [_] => simp only [urldecode, if_neg hplus]
  | d :: e :: str => rw [urldecode, if_neg hplus, if_neg hpercent]

theorem urldecode_plus (str : Bytes) : urldecode (PLUS :: str) = SP :: urldecode str := by
  match str with
  | [] => rfl
  | [d] => rfl
  | d :: e :: str => rw [urldecode, if_pos rfl]

theorem urldecode_percent (ch1 ch2 : UInt8) (str : Bytes) :
    urldecode (PERCENT :: ch1 :: ch2 :: str) = (fromHex ch1 <<< 4 ||| fromHex ch2) :: urldecode str := by
  rw [urldecode, if_neg (by decide), if_pos rfl]

/-! ## Encodings -/

/-- the byte that two hexadecimal digits stand for -/
def hexByte (ch1 ch2 : UInt8) : UInt8 := UInt8.ofNat (hexDigitValue ch1 * 16 + hexDigitValue ch2)

/-- `e` is an encoding of `s` -/
inductive EncodedAs : Bytes → Bytes → Prop where
  | nil : EncodedAs [] []
  | literal {c e s} (hplus : c ≠ PLUS) (hpercent : c ≠ PERCENT) (h : EncodedAs e s) : EncodedAs (c :: e) (c :: s)
  | space {e s} (h : EncodedAs e s) : EncodedAs (PLUS :: e) (SP :: s)
  | percent {ch1 ch2 e s} (h1 : isHex ch1 = true) (h2 : isHex ch2 = true) (h : EncodedAs e s) :
      EncodedAs (PERCENT :: ch1 :: ch2 :: e) (hexByte ch1 ch2 :: s)

/-- every byte is one of 256 -/
theorem forall_byte {P : UInt8 → Prop} (h : ∀ n : Fin 256, P (UInt8.ofNat n.1)) (c : UInt8) : P c := by
  have hc := h ⟨c.toNat, c.toNat_lt⟩
  rwa [UInt8.ofNat_toNat] at hc

theorem fromHex_of_isHex : ∀ ch : UInt8, isHex ch = true →
    fromHex ch = UInt8.ofNat (hexDigitValue ch) ∧ hexDigitValue ch < 16 :=
  forall_byte (by decide +kernel)

theorem hexByte_eq {ch1 ch2 : UInt8} (h1 : isHex ch1 = true) (h2 : isHex ch2 = true) :
    fromHex ch1 <<< 4 ||| fromHex ch2 = hexByte ch1 ch2 := by
  obtain ⟨heq1, hlt1⟩ := fromHex_of_isHex ch1 h1
  obtain ⟨heq2, hlt2⟩ := fromHex_of_isHex ch2 h2
  have hall : ∀ a b : Fin 16, UInt8.ofNat a.1 <<< 4 ||| UInt8.ofNat b.1 = UInt8.ofNat (a.1 * 16 + b.1) := by
    decide +kernel
  rw [heq1, heq2]
  exact hall ⟨_, hlt1⟩ ⟨_, hlt2⟩

/-- **Decoding inverts encoding**, whatever is behind it. -/
theorem urldecode_of_encodedAs {e s : Bytes} (h : EncodedAs e s) (rest : Bytes) :
    urldecode (e ++ rest) = s ++ urldecode rest := by
  induction h with
  | nil => rfl
  | literal hplus hpercent _ ih => rw [List.cons_append, urldecode_literal hplus hpercent, ih]; rfl
  | space _ ih => rw [List.cons_append, urldecode_plus, ih]; rfl
  | percent h1 h2 _ ih =>
    rw [List.cons_append, List.cons_append, List.cons_append, urldecode_percent, hexByte_eq h1 h2, ih]
    rfl

/-! ## The encoding of a browser -/

/-- the bytes that stand for themselves: letters, digits and `*-._` -/
def isUnreserved (c : UInt8) : Bool :=
  isDigit c || (65 ≤ c && c ≤ 90) || (97 ≤ c && c ≤ 122) || List.contains (ascii "*-._") c

/-- a hexadecimal digit, in upper case -/
def hexDigit (n : UInt8) : UInt8 := if n < 10 then 48 + n else 55 + n

def urlencodeByte (c : UInt8) : Bytes :=
  if c = SP then [PLUS] else if isUnreserved c then [c] else [PERCENT, hexDigit (c >>> 4), hexDigit (c &&& 15)]

/-- the `application/x-www-form-urlencoded` serialization of a string -/
def urlencode (s : Bytes) : Bytes := s.flatMap urlencodeByte

theorem hexDigit_spec : ∀ c : UInt8, isHex (hexDigit (c >>> 4)) = true ∧ isHex (hexDigit (c &&& 15)) = true ∧
    hexByte (hexDigit (c >>> 4)) (hexDigit (c &&& 15)) = c :=
  forall_byte (by decide +kernel)

theorem isUnreserved_ne {c d : UInt8} (hc : isUnreserved c = true) (hd : isUnreserved d = false) : c ≠ d := by
  intro he
  rw [he, hd] at hc
  cases hc

theorem encodedAs_urlencode (s : Bytes) : EncodedAs (urlencode s) s := by
  induction s with
  | nil => exact .nil
  | cons c s ih =>
    rw [urlencode, List.flatMap_cons, urlencodeByte]
    split_ifs with hspace hliteral
    · rw [hspace]
      exact .space ih
    · exact .literal (isUnreserved_ne hliteral (by decide)) (isUnreserved_ne hliteral (by decide)) ih
    · obtain ⟨h1, h2, heq⟩ := hexDigit_spec c
      have hpercent := EncodedAs.percent h1 h2 ih
      rwa [heq] at hpercent

/-! ## Splitting -/

/-- the variables of `parseRequestBody` -/
structure FormState where
  temp : SortedMap Bytes Bytes := SortedMap.empty
  key : Bytes := []
  value : Bytes := []
  atkey : Bool := true

/-- one turn of the loop of `parseRequestBody` -/
def FormState.step (st : FormState) (c : UInt8) : FormState :=
  if c = EQUALS then { st with atkey := false }
  else if c = AMP then { temp := st.temp.insert st.key st.value }
  else if st.atkey then { st with key := st.key ++ [c] }
  else { st with value := st.value ++ [c] }

/-- the pair the loop ends in is stored after it -/
def FormState.result (st : FormState) : SortedMap Bytes Bytes := st.temp.insert st.key st.value

/-- `parseRequestBody` -/
def parseRequestBody (body : Bytes) : SortedMap Bytes Bytes := (body.foldl FormState.step {}).result

/-- neither delimiter is in the string -/
def Clean (s : Bytes) : Prop := EQUALS ∉ s ∧ AMP ∉ s

theorem clean_nil : Clean [] := ⟨List.not_mem_nil, List.not_mem_nil⟩

theorem Clean.ne {s : Bytes} (h : Clean s) {c : UInt8} (hc : c ∈ s) : c ≠ EQUALS ∧ c ≠ AMP :=
  ⟨fun he => h.1 (he ▸ hc), fun he => h.2 (he ▸ hc)⟩

theorem Clean.tail {c : UInt8} {s : Bytes} (h : Clean (c :: s)) : Clean s :=
  ⟨fun hm => h.1 (List.mem_cons_of_mem c hm), fun hm => h.2 (List.mem_cons_of_mem c hm)⟩

theorem Clean.snoc {s : Bytes} (h : Clean s) {c : UInt8} (hequals : c ≠ EQUALS) (hamp : c ≠ AMP) : Clean (s ++ [c]) := by
  constructor
  · intro hm
    rcases List.mem_append.1 hm with hm | hm
    · exact h.1 hm
    · exact hequals (List.mem_singleton.1 hm).symm
  · intro hm
    rcases List.mem_append.1 hm with hm | hm
    · exact h.2 hm
    · exact hamp (List.mem_singleton.1 hm).symm

/-- every value that is stored, or that would be, is clean -/
structure FormState.CleanValues (st : FormState) : Prop where
  value : Clean st.value
  temp : ∀ k v, st.temp.find? k = some v → Clean v

theorem FormState.CleanValues.insert {st : FormState} (h : st.CleanValues) {k v : Bytes}
    (hv : (st.temp.insert st.key st.value).find? k = some v) : Clean v := by
  by_cases hk : k = st.key
  · rw [hk, SortedMap.find?_insert_self] at hv
    rw [← Option.some.inj hv]
    exact h.value
  · rw [SortedMap.find?_insert_of_ne _ _ hk] at hv
    exact h.temp k v hv

theorem FormState.CleanValues.step {st : FormState} (h : st.CleanValues) (c : UInt8) : (st.step c).CleanValues := by
  unfold FormState.step
  split_ifs with hequals hamp
  · exact ⟨h.value, h.temp⟩
  · exact ⟨clean_nil, fun k v hv => h.insert hv⟩
  · exact ⟨h.value, h.temp⟩
  · exact ⟨h.value.snoc hequals hamp, h.temp⟩

theorem FormState.CleanValues.run {st : FormState} (h : st.CleanValues) (body : Bytes) :
    (body.foldl FormState.step st).CleanValues := by
  induction body generalizing st with
  | nil => exact h
  | cons c body ih => exact ih (h.step c)

theorem cleanValues_start : FormState.CleanValues {} := by
  refine ⟨clean_nil, fun k v hv => ?_⟩
  cases hv

/-- **No stored value has a delimiter in it.** -/
theorem parseRequestBody_clean (body : Bytes) {k v : Bytes} (hv : (parseRequestBody body).find? k = some v) :
    Clean v := (cleanValues_start.run body).insert hv

theorem foldl_key {s : Bytes} (h : Clean s) (st : FormState) (hat : st.atkey = true) :
    s.foldl FormState.step st = { st with key := st.key ++ s } := by
  induction s generalizing st with
  | nil => simp
  | cons c s ih =>
    obtain ⟨hequals, hamp⟩ := h.ne List.mem_cons_self
    have hstep : st.step c = { st with key := st.key ++ [c] } := by
      rw [FormState.step, if_neg hequals, if_neg hamp, if_pos hat]
    rw [List.foldl_cons, hstep, ih h.tail { st with key := st.key ++ [c] } hat]
    simp

theorem foldl_value {s : Bytes} (h : Clean s) (st : FormState) (hat : st.atkey = false) :
    s.foldl FormState.step st = { st with value := st.value ++ s } := by
  induction s generalizing st with
  | nil => simp
  | cons c s ih =>
    obtain ⟨hequals, hamp⟩ := h.ne List.mem_cons_self
    have hstep : st.step c = { st with value := st.value ++ [c] } := by
      rw [FormState.step, if_neg hequals, if_neg hamp, if_neg (by rw [hat]; decide)]
    rw [List.foldl_cons, hstep, ih h.tail { st with value := st.value ++ [c] } hat]
    simp

/-- a pair as it is joined -/
def pair (key value : Bytes) : Bytes := key ++ EQUALS :: value

theorem foldl_pair {key value : Bytes} (hkey : Clean key) (hvalue : Clean value) (temp : SortedMap Bytes Bytes) :
    (pair key value).foldl FormState.step { temp } = ⟨temp, key, value, false⟩ := by
  have hequals (st : FormState) : st.step EQUALS = { st with atkey := false } := rfl
  rw [pair, List.foldl_append, foldl_key hkey _ rfl, List.foldl_cons, hequals, foldl_value hvalue _ rfl]
  rfl

theorem foldl_pairs (ps : List (Bytes × Bytes)) (h : ∀ q ∈ ps, Clean q.1 ∧ Clean q.2) (st : FormState) :
    ((ps.flatMap fun q => AMP :: pair q.1 q.2).foldl FormState.step st).result =
      ps.foldl (fun m q => m.insert q.1 q.2) st.result := by
  induction ps generalizing st with
  | nil => rfl
  | cons q ps ih =>
    obtain ⟨hkey, hvalue⟩ := h q List.mem_cons_self
    have hamp : st.step AMP = { temp := st.result } := rfl
    rw [List.flatMap_cons, List.cons_append, List.foldl_cons, hamp, List.foldl_append, foldl_pair hkey hvalue,
      ih fun r hr => h r (List.mem_cons_of_mem q hr)]
    rfl

/-- **Splitting undoes joining** when no key and no value has a delimiter in it: the last value of a key stays. -/
theorem parseRequestBody_pairs (p : Bytes × Bytes) (ps : List (Bytes × Bytes))
    (h : ∀ q ∈ p :: ps, Clean q.1 ∧ Clean q.2) :
    parseRequestBody (pair p.1 p.2 ++ ps.flatMap fun q => AMP :: pair q.1 q.2) = .ofAssignments (p :: ps) := by
  obtain ⟨hkey, hvalue⟩ := h p List.mem_cons_self
  have hps : ∀ q ∈ ps, Clean q.1 ∧ Clean q.2 := fun q hq => h q (List.mem_cons_of_mem p hq)
  calc parseRequestBody (pair p.1 p.2 ++ ps.flatMap fun q => AMP :: pair q.1 q.2)
      = ((ps.flatMap fun q => AMP :: pair q.1 q.2).foldl FormState.step ⟨SortedMap.empty, p.1, p.2, false⟩).result := by
        rw [parseRequestBody, List.foldl_append, foldl_pair hkey hvalue]
    _ = ps.foldl (fun m q => m.insert q.1 q.2) (SortedMap.empty.insert p.1 p.2) := foldl_pairs ps hps _
    _ = .ofAssignments (p :: ps) := rfl

end BlogServer.Posts
