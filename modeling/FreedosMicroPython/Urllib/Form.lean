import FreedosMicroPython.Lib.Scan
import FreedosMicroPython.Urllib.Quote
/-!
# Form-encoded queries

`urlencode` and `parse_qsl` of `port/urllib_parse_uc386dos.c`. The parser works on
indices into the raw text; `parsePairs_step` says what one turn of its loop does to
the text that is left, and `parsePairs_joined` that it undoes the encoder.
-/

namespace FreedosMicroPython.Urllib.Form

open FreedosMicroPython.Lib.Scan FreedosMicroPython.Urllib.Quote

variable (utf8Check : List UInt8 → Bool)

inductive Query where
  /-- A dict, by the slots of its table. -/
  | dict (slots : List (Option (Obj × Obj)))
  /-- Any other iterable; an item that is no list or tuple is `none`. -/
  | iter (items : List (Option (List Obj)))
  /-- An object that cannot be iterated. -/
  | scalar
  deriving Repr

/-! ## Encoding -/

def coerce : Obj → Obj
  | .str data => .str data
  | .buffer _ text => .str text
  | .other text => .str text

def urlencodePair (vstr : List UInt8) (key val : Obj) (first : Bool) :
    Except Raised (List UInt8 × Bool) := do
  let vstr := if first then vstr else vstr ++ ['&'.toUInt8]
  let ks ← quoteInner utf8Check key none true
  let vstr := vstr ++ ks ++ ['='.toUInt8]
  let vs ← quoteInner utf8Check (coerce val) none true
  return (vstr ++ vs, false)

def dictPair (acc : List UInt8 × Bool) : Option (Obj × Obj) → Except Raised (List UInt8 × Bool)
  | some (key, value) => urlencodePair utf8Check acc.1 key value acc.2
  | none => .ok acc

def iterPair (acc : List UInt8 × Bool) : Option (List Obj) → Except Raised (List UInt8 × Bool)
  | some [key, value] => urlencodePair utf8Check acc.1 key value acc.2
  | some _ => .error (.valueError "urlencode pair not a 2-tuple")
  | none => .error .typeError

def urllibUrlencode (query : Query) : Except Raised (List UInt8) := do
  let acc ← match query with
    | .dict slots => slots.foldlM (dictPair utf8Check) ([], true)
    | .iter items => items.foldlM (iterPair utf8Check) ([], true)
    | .scalar => .error .typeError
  mpObjNewStrFromVstr utf8Check acc.1

/-! ## Parsing -/

def notSeparator (c : UInt8) : Bool := c ≠ '&'.toUInt8 && c ≠ ';'.toUInt8

def notEquals (c : UInt8) : Bool := c ≠ '='.toUInt8

def pairItem (keyRaw valRaw : List UInt8) : Except Raised (List UInt8 × List UInt8) := do
  let keyRaw ← mpObjNewStr utf8Check keyRaw
  let valRaw ← mpObjNewStr utf8Check valRaw
  let key ← doUnquote utf8Check (.str keyRaw) true
  let val ← doUnquote utf8Check (.str valRaw) true
  return (key, val)

/-- The loop of `parse_qsl` from index `i` on, with the pairs found so far. -/
def parsePairs (qs : List UInt8) (keepBlank : Bool) (i : Nat)
    (result : List (List UInt8 × List UInt8)) :
    Except Raised (List (List UInt8 × List UInt8)) :=
  if h : i < qs.length then do
    let pairEnd := scan notSeparator qs i
    let eq := scan notEquals (qs.take pairEnd) i
    let keyLen := eq - i
    let valOff := if eq < pairEnd then eq + 1 else pairEnd
    let valLen := pairEnd - valOff
    have : qs.length - (pairEnd + 1) < qs.length - i := by
      have := le_scan notSeparator qs i
      omega
    let result ←
      if 0 < keyLen ∧ (0 < valLen ∨ keepBlank) then do
        let item ← pairItem utf8Check (segment qs i eq) (segment qs valOff pairEnd)
        pure (result ++ [item])
      else pure result
    parsePairs qs keepBlank (pairEnd + 1) result
  else pure result
termination_by qs.length - i

def urllibParseQsl (qs : Obj) (keepBlankValues : Bool) :
    Except Raised (List (List UInt8 × List UInt8)) :=
  match qs with
  | .str qs => parsePairs utf8Check qs keepBlankValues 0 []
  | _ => .error .typeError

/-! ## One turn of the parser -/

/-- The pairs so far and the one made of a raw key and value, if it counts. -/
def addPair (keepBlank : Bool) (key val : List UInt8) (result : List (List UInt8 × List UInt8)) :
    Except Raised (List (List UInt8 × List UInt8)) :=
  if key ≠ [] ∧ (val ≠ [] ∨ keepBlank) then do
    let item ← pairItem utf8Check key val
    pure (result ++ [item])
  else pure result

theorem parsePairs_end (qs : List UInt8) (keepBlank : Bool) {i : Nat} (hi : qs.length ≤ i)
    (result : List (List UInt8 × List UInt8)) :
    parsePairs utf8Check qs keepBlank i result = .ok result := by
  rw [parsePairs, dif_neg (Nat.not_lt.mpr hi)]
  rfl

theorem parsePairs_step (keepBlank : Bool) {qs key value rest : List UInt8} {i : Nat}
    (hdrop : qs.drop i = key ++ '='.toUInt8 :: value ++ rest)
    (hkey : ∀ b ∈ key, notSeparator b = true ∧ notEquals b = true)
    (hvalue : ∀ b ∈ value, notSeparator b = true)
    (hrest : ∀ b ∈ rest.head?, notSeparator b = false)
    (result : List (List UInt8 × List UInt8)) :
    ∃ j, qs.drop j = rest.tail ∧ parsePairs utf8Check qs keepBlank i result =
      addPair utf8Check keepBlank key value result >>= parsePairs utf8Check qs keepBlank j := by
  have hpair : ∀ b ∈ key ++ '='.toUInt8 :: value, notSeparator b = true := by
    intro b hb
    simp only [List.mem_append, List.mem_cons] at hb
    obtain hb | rfl | hb := hb
    · exact (hkey b hb).1
    · rfl
    · exact hvalue b hb
  have hi : i < qs.length := by
    have hlen := congrArg List.length hdrop
    simp only [List.length_drop, List.length_append, List.length_cons] at hlen
    omega
  have hend : scan notSeparator qs i = i + (key ++ '='.toUInt8 :: value).length :=
    scan_of_drop notSeparator hdrop hpair hrest
  have heq : scan notEquals (qs.take (scan notSeparator qs i)) i = i + key.length := by
    apply scan_of_drop notEquals (drop_take_of_drop hdrop hend)
    · exact fun b hb => (hkey b hb).2
    · simp [notEquals]
  have hsplit : qs.drop i = key ++ ('='.toUInt8 :: value ++ rest) := by
    rw [hdrop, List.append_assoc]
  have hvalueAt : qs.drop (i + key.length + 1) = value ++ rest := by
    rw [← List.drop_drop, drop_of_drop hsplit]
    rfl
  have hlt : i + key.length < scan notSeparator qs i := by
    rw [hend, List.length_append, List.length_cons]
    omega
  have hvalueEnd : scan notSeparator qs i = i + key.length + 1 + value.length := by
    rw [hend, List.length_append, List.length_cons]
    omega
  refine ⟨scan notSeparator qs i + 1, ?_, ?_⟩
  · rw [← List.drop_drop, hend, drop_of_drop hdrop, List.drop_one]
  · have hkeyPos : 0 < i + key.length - i ↔ key ≠ [] := by
      rw [Nat.add_sub_cancel_left]
      exact List.length_pos_iff
    have hvaluePos : 0 < scan notSeparator qs i - (i + key.length + 1) ↔ value ≠ [] := by
      rw [hvalueEnd, Nat.add_sub_cancel_left]
      exact List.length_pos_iff
    rw [parsePairs, dif_pos hi]
    simp only [heq, if_pos hlt, hkeyPos, hvaluePos, segment_of_drop hsplit rfl,
      segment_of_drop hvalueAt hvalueEnd]
    unfold addPair
    split
    · rw [bind_assoc]
    · rfl

/-! ## What the encoder emits -/

abbrev component (s : List UInt8) : List UInt8 := quoteBytes [] true s

def field (p : List UInt8 × List UInt8) : List UInt8 :=
  component p.1 ++ '='.toUInt8 :: component p.2

def moreFields (ps : List (List UInt8 × List UInt8)) : List UInt8 :=
  ps.flatMap fun p => '&'.toUInt8 :: field p

def joined : List (List UInt8 × List UInt8) → List UInt8
  | [] => []
  | p :: ps => field p ++ moreFields ps

def Plain (b : UInt8) : Prop :=
  isUnreserved b.toNat = true ∨ b = '+'.toUInt8 ∨ b = '%'.toUInt8

theorem plain_of_mem_component {s : List UInt8} {b : UInt8} (h : b ∈ component s) : Plain b := by
  obtain ⟨c, -, hb⟩ := List.mem_flatMap.mp h
  unfold quoteByte at hb
  split at hb
  · exact .inr (.inl (List.mem_singleton.mp hb))
  · split at hb
    · rename_i hpass
      rw [List.mem_singleton.mp hb]
      exact .inl (by simpa [passthrough] using hpass)
    · have hlt : c.toNat < 256 := c.toNat_lt
      simp only [pct, high_nibble _ hlt, low_nibble, List.mem_cons, List.not_mem_nil,
        or_false] at hb
      obtain rfl | rfl | rfl := hb
      · exact .inr (.inr rfl)
      · exact .inl (isUnreserved_hex _ (by omega))
      · exact .inl (isUnreserved_hex _ (by omega))

/-- No reserved byte but the two escapes occurs in a component. -/
theorem Plain.ne {b c : UInt8} (h : Plain b) (hc : isUnreserved c.toNat = false)
    (hplus : c ≠ '+'.toUInt8) (hpct : c ≠ '%'.toUInt8) : b ≠ c := by
  rintro rfl
  obtain h | h | h := h
  · rw [hc] at h
    cases h
  · exact hplus h
  · exact hpct h

theorem Plain.notEquals {b : UInt8} (h : Plain b) : notEquals b = true := by
  simpa [Form.notEquals] using h.ne (c := '='.toUInt8) (by decide) (by decide) (by decide)

theorem Plain.notSeparator {b : UInt8} (h : Plain b) : notSeparator b = true := by
  have hamp := h.ne (c := '&'.toUInt8) (by decide) (by decide) (by decide)
  have hsemi := h.ne (c := ';'.toUInt8) (by decide) (by decide) (by decide)
  simp [Form.notSeparator, hamp, hsemi]

theorem lt_of_isUnreserved {n : Nat} (h : isUnreserved n = true) : n < 0x80 := by
  simp only [isUnreserved, Bool.or_eq_true, Bool.and_eq_true, decide_eq_true_eq] at h
  have hz : 'z'.toNat = 0x7A := rfl
  have hZ : 'Z'.toNat = 0x5A := rfl
  have h9 : '9'.toNat = 0x39 := rfl
  have hdash : '-'.toNat = 0x2D := rfl
  have hbar : '_'.toNat = 0x5F := rfl
  have hdot : '.'.toNat = 0x2E := rfl
  have htilde : '~'.toNat = 0x7E := rfl
  omega

theorem Plain.ascii {b : UInt8} (h : Plain b) : b < 0x80 := by
  obtain h | rfl | rfl := h
  · exact UInt8.lt_iff_toNat_lt.mpr (lt_of_isUnreserved h)
  · decide
  · decide

theorem mem_field {p : List UInt8 × List UInt8} {b : UInt8} (h : b ∈ field p) :
    Plain b ∨ b = '='.toUInt8 := by
  simp only [field, List.mem_append, List.mem_cons] at h
  obtain h | h | h := h
  · exact .inl (plain_of_mem_component h)
  · exact .inr h
  · exact .inl (plain_of_mem_component h)

theorem field_ascii {p : List UInt8 × List UInt8} {b : UInt8} (h : b ∈ field p) : b < 0x80 := by
  obtain h | rfl := mem_field h
  · exact h.ascii
  · decide

theorem joined_ascii (ps : List (List UInt8 × List UInt8)) : ∀ b ∈ joined ps, b < 0x80 := by
  intro b hb
  cases ps with
  | nil => cases hb
  | cons p ps =>
      simp only [joined, moreFields, List.mem_append, List.mem_flatMap, List.mem_cons] at hb
      obtain hb | ⟨q, -, rfl | hb⟩ := hb
      · exact field_ascii hb
      · decide
      · exact field_ascii hb

variable {utf8Check} (hutf8 : Utf8Law utf8Check)

include hutf8

theorem quoteInner_component (s : List UInt8) :
    quoteInner utf8Check (.str s) none true = .ok (component s) := by
  have hcheck := hutf8.of_ascii fun b hb => (plain_of_mem_component (s := s) hb).ascii
  exact if_pos hcheck

def tuple (p : List UInt8 × List UInt8) : Option (List Obj) := some [.str p.1, .str p.2]

theorem iterPair_tuple (vstr : List UInt8) (p : List UInt8 × List UInt8) (first : Bool) :
    iterPair utf8Check (vstr, first) (tuple p) =
      .ok ((if first then vstr else vstr ++ ['&'.toUInt8]) ++ field p, false) := by
  simp only [iterPair, tuple, urlencodePair, coerce, quoteInner_component hutf8]
  simp [field, bind, Except.bind, pure, Except.pure]

theorem foldlM_iterPair (vstr : List UInt8) (ps : List (List UInt8 × List UInt8)) :
    (ps.map tuple).foldlM (iterPair utf8Check) (vstr, false) =
      .ok (vstr ++ moreFields ps, false) := by
  induction ps generalizing vstr with
  | nil => simp [moreFields, pure, Except.pure]
  | cons p ps ih =>
      rw [List.map_cons, List.foldlM_cons, iterPair_tuple hutf8]
      simp only [bind, Except.bind] at ih ⊢
      rw [ih]
      simp [moreFields]

theorem urllibUrlencode_joined (ps : List (List UInt8 × List UInt8)) :
    urllibUrlencode utf8Check (.iter (ps.map tuple)) = .ok (joined ps) := by
  have hcheck := hutf8.of_ascii (joined_ascii ps)
  have hfold : (ps.map tuple).foldlM (iterPair utf8Check) ([], true) =
      .ok (joined ps, ps.isEmpty) := by
    cases ps with
    | nil => rfl
    | cons p ps =>
        rw [List.map_cons, List.foldlM_cons, iterPair_tuple hutf8]
        exact foldlM_iterPair hutf8 _ ps
  simp only [urllibUrlencode, hfold]
  exact if_pos hcheck

/-! ## The parser on encoded text -/

def kept (keepBlank : Bool) (ps : List (List UInt8 × List UInt8)) :
    List (List UInt8 × List UInt8) :=
  ps.filter fun p => keepBlank || p.2 ≠ []

def decodable (utf8Check : List UInt8 → Bool) (p : List UInt8 × List UInt8) : Bool :=
  utf8Check p.1 && utf8Check p.2

/-- The list of pairs, unless one of them cannot be made a tuple of `str`. -/
def checked (utf8Check : List UInt8 → Bool) (ps : List (List UInt8 × List UInt8)) :
    Except Raised (List (List UInt8 × List UInt8)) :=
  if ps.all (decodable utf8Check) then .ok ps else .error .unicodeError

omit hutf8 in
theorem component_ne_nil {s : List UInt8} : component s ≠ [] ↔ s ≠ [] := by
  cases s with
  | nil => simp [component, quoteBytes]
  | cons c s =>
      have hbyte : quoteByte [] true c ≠ [] := by
        unfold quoteByte pct
        split
        · simp
        · split <;> simp
      simp [component, quoteBytes, hbyte]

omit hutf8 in
theorem unquoteBytes_component (s : List UInt8) : unquoteBytes true (component s) = s :=
  unquoteBytes_quoteBytes ⟨by simp, by simp⟩ s

theorem pairItem_component (p : List UInt8 × List UInt8) :
    pairItem utf8Check (component p.1) (component p.2) =
      if decodable utf8Check p then .ok p else .error .unicodeError := by
  have hraw : ∀ s, mpObjNewStr utf8Check (component s) = .ok (component s) := by
    intro s
    exact if_pos (hutf8.of_ascii fun b hb => (plain_of_mem_component (s := s) hb).ascii)
  simp only [pairItem, hraw, bind, Except.bind, doUnquote_str, unquoteBytes_component,
    mpObjNewStrFromVstr, decodable]
  by_cases hkey : utf8Check p.1 = true
  · by_cases hval : utf8Check p.2 = true <;> simp [hkey, hval, pure, Except.pure]
  · simp [hkey]

theorem addPair_component (keepBlank : Bool) {p : List UInt8 × List UInt8} (hkey : p.1 ≠ [])
    (result : List (List UInt8 × List UInt8)) :
    addPair utf8Check keepBlank (component p.1) (component p.2) result =
      if (kept keepBlank [p]).all (decodable utf8Check) then .ok (result ++ kept keepBlank [p])
      else .error .unicodeError := by
  simp only [addPair, component_ne_nil, pairItem_component hutf8]
  by_cases hkept : p.2 ≠ [] ∨ keepBlank = true
  · have hfilter : kept keepBlank [p] = [p] := by
      obtain h | h := hkept <;> simp [kept, h]
    rw [if_pos ⟨hkey, hkept⟩, hfilter]
    cases hp : decodable utf8Check p <;> simp [hp, bind, Except.bind, pure, Except.pure]
  · have hfilter : kept keepBlank [p] = [] := by
      simp only [not_or, not_not, Bool.not_eq_true] at hkept
      simp [kept, hkept]
    rw [if_neg fun h => hkept h.2, hfilter]
    simp [pure, Except.pure]

omit hutf8 in
theorem tail_moreFields (ps : List (List UInt8 × List UInt8)) :
    (moreFields ps).tail = joined ps := by
  cases ps <;> rfl

theorem parsePairs_joined (keepBlank : Bool) {ps : List (List UInt8 × List UInt8)}
    (hkeys : ∀ p ∈ ps, p.1 ≠ []) {qs : List UInt8} {i : Nat} (hdrop : qs.drop i = joined ps)
    (result : List (List UInt8 × List UInt8)) :
    parsePairs utf8Check qs keepBlank i result =
      (checked utf8Check (kept keepBlank ps)).map (result ++ ·) := by
  induction ps generalizing i result with
  | nil =>
      have hend : qs.length ≤ i := List.drop_eq_nil_iff.mp hdrop
      rw [parsePairs_end utf8Check qs keepBlank hend]
      simp [checked, kept, Except.map]
  | cons p ps ih =>
      obtain ⟨j, hj, hstep⟩ := parsePairs_step utf8Check keepBlank hdrop
        (fun b hb => ⟨(plain_of_mem_component hb).notSeparator,
          (plain_of_mem_component hb).notEquals⟩)
        (fun b hb => (plain_of_mem_component hb).notSeparator)
        (by cases ps <;> simp [moreFields, notSeparator]) result
      have hrest : ∀ result, parsePairs utf8Check qs keepBlank j result =
          (checked utf8Check (kept keepBlank ps)).map (result ++ ·) := by
        apply ih (fun q hq => hkeys q (by simp [hq]))
        rw [hj, tail_moreFields]
      have hcons : kept keepBlank (p :: ps) = kept keepBlank [p] ++ kept keepBlank ps := by
        simp [kept, ← List.filter_append]
      rw [hstep, addPair_component hutf8 keepBlank (hkeys p (by simp)), hcons]
      cases hp : (kept keepBlank [p]).all (decodable utf8Check) with
      | false => simp [checked, hp, bind, Except.bind, Except.map]
      | true =>
          simp only [if_true, bind, Except.bind, hrest, checked, List.all_append, hp, Bool.true_and]
          split <;> simp [Except.map]

/-! ## Round trips -/

def roundTrip (utf8Check : List UInt8 → Bool) (ps : List (List UInt8 × List UInt8))
    (keepBlank : Bool) : Except Raised (List (List UInt8 × List UInt8)) :=
  urllibUrlencode utf8Check (.iter (ps.map tuple)) >>= fun qs =>
    urllibParseQsl utf8Check (.str qs) keepBlank

theorem roundTrip_eq {ps : List (List UInt8 × List UInt8)} (hkeys : ∀ p ∈ ps, p.1 ≠ [])
    (keepBlank : Bool) :
    roundTrip utf8Check ps keepBlank = checked utf8Check (kept keepBlank ps) := by
  have hdrop : (joined ps).drop 0 = joined ps := rfl
  have hparse := parsePairs_joined hutf8 keepBlank hkeys hdrop []
  rw [roundTrip, urllibUrlencode_joined hutf8]
  change parsePairs utf8Check (joined ps) keepBlank 0 [] = _
  rw [hparse]
  cases checked utf8Check (kept keepBlank ps) <;> rfl

omit hutf8 in
theorem urllibUrlencode_dict (slots : List (Option (List UInt8 × List UInt8))) :
    urllibUrlencode utf8Check (.dict (slots.map (·.map fun p => (.str p.1, .str p.2)))) =
      urllibUrlencode utf8Check (.iter ((slots.filterMap id).map tuple)) := by
  have hfold : ∀ acc, (slots.map (·.map fun p => (Obj.str p.1, Obj.str p.2))).foldlM
      (dictPair utf8Check) acc =
        ((slots.filterMap id).map tuple).foldlM (iterPair utf8Check) acc := by
    induction slots with
    | nil => exact fun _ => rfl
    | cons slot slots ih =>
        intro acc
        cases slot with
        | none => exact ih acc
        | some p =>
            simp only [List.map_cons, List.foldlM_cons, List.filterMap_cons, id]
            exact congrArg _ (funext ih)
  simp only [urllibUrlencode, hfold]

theorem parseQsl_urlencode {ps : List (List UInt8 × List UInt8)} (hkeys : ∀ p ∈ ps, p.1 ≠ []) :
    roundTrip utf8Check ps true = checked utf8Check ps ∧
      roundTrip utf8Check ps false = checked utf8Check (ps.filter fun p => p.2 ≠ []) := by
  have hall : kept true ps = ps := by simp [kept]
  have hfilled : kept false ps = ps.filter fun p => p.2 ≠ [] := by simp [kept]
  rw [roundTrip_eq hutf8 hkeys, roundTrip_eq hutf8 hkeys, hall, hfilled]
  exact ⟨rfl, rfl⟩

omit hutf8

/-- A repeated key, an empty value and the delimiters inside a value. -/
theorem parseQsl_urlencode_delimiters :
    roundTrip asciiOnly [([0x6B], [0x26, 0x3D]), ([0x6B], [])] true =
        checked asciiOnly [([0x6B], [0x26, 0x3D]), ([0x6B], [])] ∧
      roundTrip asciiOnly [([0x6B], [0x26, 0x3D]), ([0x6B], [])] false =
        checked asciiOnly ([([0x6B], [0x26, 0x3D]), ([0x6B], [])].filter fun p => p.2 ≠ []) :=
  parseQsl_urlencode asciiOnly_law (by simp)

/-- A byte that is no UTF-8 is encoded, but its pair cannot be given back. -/
theorem parseQsl_urlencode_invalid :
    roundTrip asciiOnly [([0x6B], [0xFF])] true ≠ .ok [([0x6B], [0xFF])] := by
  have hkeys : ∀ p ∈ [(([0x6B] : List UInt8), ([0xFF] : List UInt8))], p.1 ≠ [] := by simp
  have hresult := roundTrip_eq asciiOnly_law hkeys true
  rw [hresult]
  decide

end FreedosMicroPython.Urllib.Form
