import Mathlib.Data.Nat.Digits.Lemmas
import FreedosMicroPython.Lib.Pieces
/-!
# Dotted quads

`parse_ip4` and `mod_uc386_net_ip4_to_str` of `port/uc386_net_uc386dos.c`. The parser walks over a
string in memory; its loops are given a bound, and the result says which one is enough.
-/

namespace FreedosMicroPython.Net.Ip4

open FreedosMicroPython.Lib.Pieces

/-! ## The functions -/

def dot : UInt8 := '.'.toUInt8

def isDigit (c : UInt8) : Bool := '0'.toUInt8 ≤ c && c ≤ '9'.toUInt8

def digitsLoop (mem : Nat → UInt8) : Nat → UInt32 → Nat → Option (UInt32 × Nat)
  | 0, _, _ => none
  | fuel + 1, v, s =>
      if isDigit (mem s) then
        digitsLoop mem fuel (v * 10 + (mem s - '0'.toUInt8).toUInt32) (s + 1)
      else some (v, s)

def fieldsLoop (mem : Nat → UInt8) : Nat → List UInt32 → Nat → Nat → Option (List UInt32)
  | 0, _, _, _ => none
  | fuel + 1, parts, idx, s =>
      if mem s ≠ 0 ∧ idx < 4 then
        match digitsLoop mem fuel 0 s with
        | none => none
        | some (v, s) =>
            fieldsLoop mem fuel (parts.set idx (v &&& 0xFF)) (idx + 1)
              (if mem s = dot then s + 1 else s)
      else some parts

def parseIp4 (mem : Nat → UInt8) (fuel s : Nat) : Option UInt32 :=
  (fieldsLoop mem fuel [0, 0, 0, 0] 0 s).map fun parts =>
    let part (k : Nat) : UInt32 := parts.getD k 0
    part 0 ||| (part 1 <<< 8) ||| (part 2 <<< 16) ||| (part 3 <<< 24)

def printU (n : UInt32) : List UInt8 := (Nat.toDigits 10 n.toNat).map Char.toUInt8

def snprintf (size : Nat) (text : List UInt8) : List UInt8 × Nat :=
  (text.take (size - 1) ++ [0], text.length)

def quad (addr : UInt32) : List UInt8 :=
  printU (addr &&& 0xFF) ++ dot :: (printU ((addr >>> 8) &&& 0xFF) ++
    dot :: (printU ((addr >>> 16) &&& 0xFF) ++ dot :: printU ((addr >>> 24) &&& 0xFF)))

def ip4ToStr (addr : UInt32) : List UInt8 :=
  let (buf, n) := snprintf 16 (quad addr)
  let n := if 16 ≤ n then 0 else n
  buf.take n

/-! ## Strings and fields -/

def Holds (mem : Nat → UInt8) : Nat → List UInt8 → Prop
  | s, [] => mem s = 0
  | s, c :: text => mem s = c ∧ c ≠ 0 ∧ Holds mem (s + 1) text

def stored (text : List UInt8) : Nat → UInt8 := fun i => text.getD i 0

def decimal (digits : List UInt8) : Nat :=
  digits.foldl (fun n c => n * 10 + (c.toNat - '0'.toUInt8.toNat)) 0

/-- The digits of the `k`-th field: those at the front of the `k`-th piece between dots, and none
behind a piece that is not all digits. -/
def fieldDigits (text : List UInt8) (k : Nat) : List UInt8 :=
  let pieces := text.splitOn dot
  if (pieces.take k).all (·.all isDigit) then (pieces.getD k []).takeWhile isDigit else []

def afterField (text : List UInt8) : List UInt8 :=
  match text.dropWhile isDigit with
  | [] => []
  | c :: rest => if c = dot then rest else c :: rest

/-! ## The digits of a field -/

@[simp] theorem isDigit_zero : isDigit 0 = false := by decide

@[simp] theorem isDigit_dot : isDigit dot = false := by decide

theorem isDigit_iff {c : UInt8} : isDigit c = true ↔ 48 ≤ c.toNat ∧ c.toNat ≤ 57 := by
  simp only [isDigit, Bool.and_eq_true, decide_eq_true_eq, UInt8.le_iff_toNat_le]
  rfl

theorem ne_dot {c : UInt8} (h : isDigit c = true) : c ≠ dot := by
  rintro rfl
  simp at h

theorem all_takeWhile (text : List UInt8) : ∀ c ∈ text.takeWhile isDigit, isDigit c = true :=
  fun _ hc => List.mem_takeWhile_imp hc

theorem digits_cases (text : List UInt8) :
    (∃ ds, (∀ c ∈ ds, isDigit c = true) ∧ text = ds) ∨
      ∃ ds c rest, (∀ d ∈ ds, isDigit d = true) ∧ isDigit c = false ∧ text = ds ++ c :: rest := by
  induction text with
  | nil => exact .inl ⟨[], by simp, rfl⟩
  | cons c text ih =>
      cases hc : isDigit c with
      | false => exact .inr ⟨[], c, text, by simp, hc, rfl⟩
      | true =>
          rcases ih with ⟨ds, hds, rfl⟩ | ⟨ds, d, rest, hds, hd, rfl⟩
          · exact .inl ⟨c :: text, List.forall_mem_cons.mpr ⟨hc, hds⟩, rfl⟩
          · exact .inr ⟨c :: ds, d, rest, List.forall_mem_cons.mpr ⟨hc, hds⟩, hd, rfl⟩

theorem takeWhile_digits {ds : List UInt8} (h : ∀ c ∈ ds, isDigit c = true) :
    ds.takeWhile isDigit = ds :=
  List.takeWhile_eq_self_iff.mpr h

theorem takeWhile_stop {ds : List UInt8} (h : ∀ c ∈ ds, isDigit c = true) {c : UInt8}
    (hc : isDigit c = false) (rest : List UInt8) : (ds ++ c :: rest).takeWhile isDigit = ds := by
  rw [List.takeWhile_append_of_pos h, List.takeWhile_cons_of_neg (by simp [hc]), List.append_nil]

theorem dropWhile_digits {ds : List UInt8} (h : ∀ c ∈ ds, isDigit c = true) :
    ds.dropWhile isDigit = [] :=
  List.dropWhile_eq_nil_iff.mpr h

theorem dropWhile_stop {ds : List UInt8} (h : ∀ c ∈ ds, isDigit c = true) {c : UInt8}
    (hc : isDigit c = false) (rest : List UInt8) :
    (ds ++ c :: rest).dropWhile isDigit = c :: rest := by
  rw [List.dropWhile_append_of_pos h, List.dropWhile_cons_of_neg (by simp [hc])]

theorem splitOn_digits {ds : List UInt8} (h : ∀ c ∈ ds, isDigit c = true) :
    ds.splitOn dot = [ds] :=
  List.splitOnP_eq_singleton fun c hc => by simpa using ne_dot (h c hc)

theorem splitOn_dot {ds : List UInt8} (h : ∀ c ∈ ds, isDigit c = true) (rest : List UInt8) :
    (ds ++ dot :: rest).splitOn dot = ds :: rest.splitOn dot :=
  splitOnP_more (fun c hc => by simpa using ne_dot (h c hc)) (by simp) rest

theorem splitOn_stop {ds : List UInt8} (h : ∀ c ∈ ds, isDigit c = true) {c : UInt8}
    (hc : isDigit c = false) (hdot : c ≠ dot) (rest : List UInt8) :
    ∃ piece pieces, (ds ++ c :: rest).splitOn dot = (ds ++ c :: piece) :: pieces := by
  have hfront : ∀ {piece : List UInt8}, (∀ d ∈ piece, (d == dot) = false) →
      ∀ d ∈ ds ++ c :: piece, (d == dot) = false := by
    intro piece hpiece d hd
    rcases List.mem_append.mp hd with hd | hd
    · simpa using ne_dot (h d hd)
    · rcases List.mem_cons.mp hd with rfl | hd
      · simpa using hdot
      · exact hpiece d hd
  induction rest using split_induction (p := (· == dot)) with
  | piece rest hrest =>
      exact ⟨rest, [], List.splitOnP_eq_singleton (hfront hrest)⟩
  | more rest sep t hrest hsep _ =>
      refine ⟨rest, t.splitOn dot, ?_⟩
      have hmore := splitOnP_more (hfront hrest) hsep t
      rwa [List.append_assoc, List.cons_append] at hmore

/-! ## The fields of a string -/

theorem fieldDigits_zero (text : List UInt8) : fieldDigits text 0 = text.takeWhile isDigit := by
  rcases digits_cases text with ⟨ds, hds, rfl⟩ | ⟨ds, c, rest, hds, hc, rfl⟩
  · simp [fieldDigits, splitOn_digits hds]
  · by_cases hdot : c = dot
    · subst hdot
      simp [fieldDigits, splitOn_dot hds, takeWhile_stop hds hc, takeWhile_digits hds]
    · obtain ⟨piece, pieces, hsplit⟩ := splitOn_stop hds hc hdot rest
      simp [fieldDigits, hsplit, takeWhile_stop hds hc]

@[simp] theorem fieldDigits_nil (k : Nat) : fieldDigits [] k = [] := by
  cases k <;> simp [fieldDigits]

theorem fieldDigits_stop {ds : List UInt8} (h : ∀ c ∈ ds, isDigit c = true) {c : UInt8}
    (hc : isDigit c = false) (hdot : c ≠ dot) (rest : List UInt8) (k : Nat) :
    fieldDigits (ds ++ c :: rest) (k + 1) = [] := by
  obtain ⟨piece, pieces, hsplit⟩ := splitOn_stop h hc hdot rest
  simp [fieldDigits, hsplit, hc]

theorem afterField_digits {ds : List UInt8} (h : ∀ c ∈ ds, isDigit c = true) :
    afterField ds = [] := by
  rw [afterField, dropWhile_digits h]

theorem afterField_stop {ds : List UInt8} (h : ∀ c ∈ ds, isDigit c = true) {c : UInt8}
    (hc : isDigit c = false) (rest : List UInt8) :
    afterField (ds ++ c :: rest) = if c = dot then rest else c :: rest := by
  rw [afterField, dropWhile_stop h hc]

theorem fieldDigits_succ (text : List UInt8) (k : Nat) :
    fieldDigits text (k + 1) = fieldDigits (afterField text) k := by
  rcases digits_cases text with ⟨ds, hds, rfl⟩ | ⟨ds, c, rest, hds, hc, rfl⟩
  · rw [afterField_digits hds, fieldDigits_nil]
    simp [fieldDigits, splitOn_digits hds]
  · by_cases hdot : c = dot
    · subst hdot
      have hall : ds.all isDigit = true := List.all_eq_true.mpr hds
      rw [afterField_stop hds hc, if_pos rfl]
      simp [fieldDigits, splitOn_dot hds, hall]
    · rw [fieldDigits_stop hds hc hdot, afterField_stop hds hc, if_neg hdot]
      cases k with
      | zero => simp [fieldDigits_zero, hc]
      | succ k => exact (fieldDigits_stop (List.forall_mem_nil _) hc hdot rest k).symm

theorem length_afterField (text : List UInt8) : (afterField text).length ≤ text.length := by
  have hlen : (text.dropWhile isDigit).length ≤ text.length :=
    (List.dropWhile_suffix isDigit).length_le
  rw [afterField]
  cases hrest : text.dropWhile isDigit with
  | nil => exact Nat.zero_le _
  | cons c rest =>
      rw [hrest, List.length_cons] at hlen
      show (if c = dot then rest else c :: rest).length ≤ text.length
      split
      · omega
      · exact hlen

/-! ## The loops -/

theorem Holds.left_ne {mem : Nat → UInt8} {s : Nat} {c : UInt8} {text : List UInt8}
    (h : Holds mem s (c :: text)) : mem s ≠ 0 :=
  h.1 ▸ h.2.1

theorem Holds.right {mem : Nat → UInt8} {rest : List UInt8} (front : List UInt8) {s : Nat}
    (h : Holds mem s (front ++ rest)) : Holds mem (s + front.length) rest := by
  induction front generalizing s with
  | nil => exact h
  | cons c front ih =>
      have hrest := ih h.2.2
      rwa [Nat.add_right_comm, Nat.add_assoc] at hrest

theorem holds_stored {text : List UInt8} (h : ∀ c ∈ text, c ≠ 0) : Holds (stored text) 0 text := by
  suffices hsuff : ∀ front, Holds (stored (front ++ text)) front.length text from hsuff []
  induction text with
  | nil =>
      intro front
      show (front ++ []).getD front.length 0 = 0
      simp
  | cons c text ih =>
      intro front
      obtain ⟨hc, htext⟩ := List.forall_mem_cons.mp h
      refine ⟨by simp [stored], hc, ?_⟩
      have hrest := ih htext (front ++ [c])
      rwa [List.append_assoc, List.singleton_append, List.length_append,
        List.length_singleton] at hrest

/-- What the digits make of `v`, in the arithmetic of the machine. -/
def accumulate (v : UInt32) (digits : List UInt8) : UInt32 :=
  digits.foldl (fun v c => v * 10 + (c - '0'.toUInt8).toUInt32) v

theorem digitsLoop_eq {mem : Nat → UInt8} {text : List UInt8} {fuel s : Nat} (v : UInt32)
    (h : Holds mem s text) (hfuel : text.length < fuel) :
    digitsLoop mem fuel v s =
      some (accumulate v (text.takeWhile isDigit), s + (text.takeWhile isDigit).length) := by
  induction text generalizing fuel s v with
  | nil =>
      obtain ⟨fuel, rfl⟩ := Nat.exists_eq_succ_of_ne_zero (by omega : fuel ≠ 0)
      have hmem : mem s = 0 := h
      rw [digitsLoop, hmem, isDigit_zero]
      rfl
  | cons c text ih =>
      obtain ⟨fuel, rfl⟩ := Nat.exists_eq_succ_of_ne_zero (by omega : fuel ≠ 0)
      rw [List.length_cons] at hfuel
      rw [digitsLoop, h.1]
      cases hc : isDigit c with
      | false => simp [hc, accumulate]
      | true =>
          rw [if_pos rfl, ih _ h.2.2 (by omega), List.takeWhile_cons_of_pos hc, List.length_cons,
            Nat.add_right_comm, Nat.add_assoc]
          rfl

theorem toNat_accumulate {digits : List UInt8} (h : ∀ c ∈ digits, isDigit c = true) {v : UInt32}
    {n : Nat} (hv : v.toNat = n % 2 ^ 32) :
    (accumulate v digits).toNat =
      digits.foldl (fun n c => n * 10 + (c.toNat - '0'.toUInt8.toNat)) n % 2 ^ 32 := by
  induction digits generalizing v n with
  | nil => exact hv
  | cons c digits ih =>
      obtain ⟨hc, hdigits⟩ := List.forall_mem_cons.mp h
      apply ih hdigits
      have hle : '0'.toUInt8 ≤ c := by
        rw [UInt8.le_iff_toNat_le]
        exact (isDigit_iff.mp hc).1
      rw [UInt32.toNat_add, UInt32.toNat_mul, UInt8.toNat_toUInt32, UInt8.toNat_sub_of_le _ _ hle,
        hv]
      show (n % 2 ^ 32 * 10 % 2 ^ 32 + _) % 2 ^ 32 = _
      rw [Nat.mod_mul_mod, Nat.mod_add_mod]

theorem toNat_low (n : UInt32) : (n &&& 0xFF).toNat = n.toNat % 256 := by
  rw [UInt32.toNat_and]
  exact Nat.and_two_pow_sub_one_eq_mod n.toNat 8

/-- A field of the address: its digits, modulo 256. -/
def field (text : List UInt8) (k : Nat) : UInt32 :=
  .ofNat (decimal (fieldDigits text k) % 256)

@[simp] theorem field_nil (k : Nat) : field [] k = 0 := by
  rw [field, fieldDigits_nil]
  rfl

theorem field_succ (text : List UInt8) (k : Nat) : field text (k + 1) = field (afterField text) k :=
  congrArg (fun ds => UInt32.ofNat (decimal ds % 256)) (fieldDigits_succ text k)

theorem accumulate_low (text : List UInt8) :
    accumulate 0 (text.takeWhile isDigit) &&& 0xFF = field text 0 := by
  apply UInt32.toNat_inj.mp
  rw [toNat_low, toNat_accumulate (all_takeWhile text) (n := 0) rfl, field, fieldDigits_zero,
    UInt32.toNat_ofNat']
  show decimal _ % 2 ^ 32 % 256 = _
  omega

theorem set_append_replicate {α : Type} (done : List α) (k : Nat) (x y : α) :
    (done ++ List.replicate (k + 1) x).set done.length y = (done ++ [y]) ++ List.replicate k x := by
  rw [List.set_append_right _ _ le_rfl, Nat.sub_self, List.replicate_succ, List.set_cons_zero,
    List.append_assoc, List.singleton_append]

theorem Holds.afterField {mem : Nat → UInt8} {s : Nat} {text : List UInt8} (h : Holds mem s text) :
    Holds mem
      (if mem (s + (text.takeWhile isDigit).length) = dot then
        s + (text.takeWhile isDigit).length + 1
      else s + (text.takeWhile isDigit).length)
      (afterField text) := by
  rcases digits_cases text with ⟨ds, hds, rfl⟩ | ⟨ds, c, rest, hds, hc, rfl⟩
  · have hend : Holds mem (s + text.length) [] := Holds.right text (by rwa [List.append_nil])
    have hmem : mem (s + text.length) = 0 := hend
    rw [takeWhile_digits hds, afterField_digits hds, hmem]
    exact hend
  · have hstop := Holds.right ds h
    rw [takeWhile_stop hds hc, afterField_stop hds hc, hstop.1]
    by_cases hdot : c = dot
    · rw [if_pos hdot, if_pos hdot]
      exact hstop.2.2
    · rw [if_neg hdot, if_neg hdot]
      exact hstop

/-- The loop fills the fields that are left; the digits of each decide it, and `afterField` is what
the rest of the loop works on. -/
theorem fieldsLoop_eq {mem : Nat → UInt8} {text : List UInt8} {k fuel s : Nat} {done : List UInt32}
    (h : Holds mem s text) (hdone : done.length + k = 4) (hfuel : text.length + k + 2 ≤ fuel) :
    fieldsLoop mem fuel (done ++ List.replicate k 0) done.length s =
      some (done ++ (List.range k).map (field text)) := by
  induction k generalizing done fuel s text with
  | zero =>
      obtain ⟨fuel, rfl⟩ := Nat.exists_eq_succ_of_ne_zero (by omega : fuel ≠ 0)
      rw [fieldsLoop, if_neg fun hloop => by omega]
      rfl
  | succ k ih =>
      obtain ⟨fuel, rfl⟩ := Nat.exists_eq_succ_of_ne_zero (by omega : fuel ≠ 0)
      cases htext : text with
      | nil =>
          subst htext
          have hmem : mem s = 0 := h
          rw [fieldsLoop, if_neg fun hloop => hloop.1 hmem]
          rw [show field [] = fun _ => 0 from funext field_nil, List.map_const', List.length_range]
      | cons c rest =>
          rw [← htext]
          have hne : mem s ≠ 0 := (htext ▸ h).left_ne
          have hlen := length_afterField text
          rw [fieldsLoop, if_pos ⟨hne, by omega⟩, digitsLoop_eq 0 h (by omega)]
          show fieldsLoop mem fuel ((done ++ List.replicate (k + 1) 0).set done.length _)
            (done.length + 1) _ = _
          rw [set_append_replicate, accumulate_low]
          have hlength : (done ++ [field text 0]).length = done.length + 1 := by
            rw [List.length_append, List.length_singleton]
          have hloop := ih h.afterField (hlength ▸ (by omega : done.length + 1 + k = 4))
            (by omega : _ ≤ fuel)
          rw [hlength] at hloop
          rw [hloop, List.range_succ_eq_map, List.map_cons, List.map_map, List.append_assoc,
            List.singleton_append]
          congr 3
          exact List.map_congr_left fun j _ => (field_succ text j).symm

/-! ## The address -/

theorem toNat_quad {a b c d : UInt32} (ha : a.toNat < 256) (hb : b.toNat < 256)
    (hc : c.toNat < 256) (hd : d.toNat < 256) :
    (a ||| (b <<< 8) ||| (c <<< 16) ||| (d <<< 24)).toNat =
      Nat.ofDigits 256 [a.toNat, b.toNat, c.toNat, d.toNat] := by
  have hshift : ∀ {x k : UInt32}, k.toNat < 32 → x.toNat * 2 ^ k.toNat < 2 ^ 32 →
      (x <<< k).toNat = x.toNat <<< k.toNat := by
    intro x k hk hx
    rw [UInt32.toNat_shiftLeft, Nat.mod_eq_of_lt hk, Nat.shiftLeft_eq, Nat.mod_eq_of_lt hx]
  rw [UInt32.toNat_or, UInt32.toNat_or, UInt32.toNat_or, hshift (by decide) (by simp; omega),
    hshift (by decide) (by simp; omega), hshift (by decide) (by simp; omega)]
  simp only [UInt32.reduceToNat]
  rw [Nat.or_comm a.toNat, ← Nat.shiftLeft_add_eq_or_of_lt (i := 8) (by omega),
    Nat.or_comm _ (c.toNat <<< 16), ← Nat.shiftLeft_add_eq_or_of_lt (i := 16) (by omega),
    Nat.or_comm _ (d.toNat <<< 24), ← Nat.shiftLeft_add_eq_or_of_lt (i := 24) (by omega)]
  simp only [Nat.shiftLeft_eq, Nat.ofDigits_cons, Nat.ofDigits_nil]
  omega

theorem toNat_field (text : List UInt8) (k : Nat) :
    (field text k).toNat = decimal (fieldDigits text k) % 256 := by
  rw [field, UInt32.toNat_ofNat']
  omega

/-- `parse_ip4` ends on every string, with the digits of its fields modulo 256. -/
theorem parseIp4_fields {mem : Nat → UInt8} {s : Nat} {text : List UInt8} (h : Holds mem s text) :
    ∃ r, (∀ fuel, text.length + 6 ≤ fuel → parseIp4 mem fuel s = some r) ∧
      r.toNat =
        Nat.ofDigits 256 ((List.range 4).map fun k => decimal (fieldDigits text k) % 256) := by
  refine ⟨field text 0 ||| (field text 1 <<< 8) ||| (field text 2 <<< 16) |||
    (field text 3 <<< 24), ?_, ?_⟩
  · intro fuel hfuel
    have hloop : fieldsLoop mem fuel ([] ++ List.replicate 4 0) [].length s = _ :=
      fieldsLoop_eq h rfl hfuel
    exact congrArg (Option.map _) hloop
  · have hlt : ∀ k, (field text k).toNat < 256 := by
      intro k
      rw [toNat_field]
      exact Nat.mod_lt _ (by decide)
    rw [toNat_quad (hlt 0) (hlt 1) (hlt 2) (hlt 3)]
    simp only [toNat_field]
    rfl

/-! ## Printing and parsing -/

theorem toNat_digit {c : Char} (h : c.isDigit = true) :
    c.toUInt8.toNat = c.toNat ∧ 48 ≤ c.toNat ∧ c.toNat ≤ 57 := by
  have hdigit : 48 ≤ c.toNat ∧ c.toNat ≤ 57 := by
    simpa [Char.isDigit, UInt32.le_iff_toNat_le] using h
  have hlow : c.toUInt8.toNat = c.toNat % 256 := UInt32.toNat_toUInt8 c.val
  exact ⟨by omega, hdigit⟩

theorem isDigit_printU (n : UInt32) : ∀ c ∈ printU n, isDigit c = true := by
  intro c hc
  obtain ⟨d, hd, rfl⟩ := List.mem_map.mp hc
  obtain ⟨heq, hle⟩ := toNat_digit (Nat.isDigit_of_mem_toDigits (by decide) (by decide) hd)
  rw [isDigit_iff, heq]
  exact hle

theorem decimal_printU (n : UInt32) : decimal (printU n) = n.toNat := by
  rw [decimal, printU, List.foldl_map]
  calc
    _ = (Nat.toDigits 10 n.toNat).foldl (fun n c => 10 * n + (c.toNat - '0'.toNat)) 0 := by
      apply List.foldl_ext
      intro m c hc
      obtain ⟨heq, -⟩ := toNat_digit (Nat.isDigit_of_mem_toDigits (by decide) (by decide) hc)
      rw [heq, Nat.mul_comm]
      rfl
    _ = n.toNat := by rw [← Nat.ofDigitChars_eq_foldl, Nat.ofDigitChars_ten_toDigits]

theorem length_printU (n : UInt32) : (printU (n &&& 0xFF)).length ≤ 3 := by
  have hlt : n.toNat % 256 < 256 := Nat.mod_lt _ (by decide)
  rw [printU, List.length_map, toNat_low]
  exact (Nat.length_toDigits_le_iff (by decide) (by decide)).mpr (by omega)

theorem take_snprintf {size : Nat} {text : List UInt8} (h : text.length < size) :
    (snprintf size text).1.take
      (if size ≤ (snprintf size text).2 then 0 else (snprintf size text).2) = text := by
  have hn : (snprintf size text).2 = text.length := rfl
  rw [hn, if_neg (by omega)]
  show (text.take (size - 1) ++ [0]).take text.length = text
  rw [List.take_of_length_le (by omega : text.length ≤ size - 1), List.take_left']
  rfl

theorem length_quad (addr : UInt32) : (quad addr).length ≤ 15 := by
  have h0 := length_printU addr
  have h1 := length_printU (addr >>> 8)
  have h2 := length_printU (addr >>> 16)
  have h3 := length_printU (addr >>> 24)
  simp only [quad, List.length_append, List.length_cons]
  omega

theorem ip4ToStr_eq (addr : UInt32) : ip4ToStr addr = quad addr :=
  take_snprintf (Nat.lt_succ_of_le (length_quad addr))

theorem ip4ToStr_ne_zero (addr : UInt32) : ∀ c ∈ ip4ToStr addr, c ≠ 0 := by
  have hbyte : ∀ n, ∀ c ∈ printU n, c ≠ 0 := by
    rintro n c hc rfl
    have hdigit := isDigit_printU n 0 hc
    rw [isDigit_zero] at hdigit
    cases hdigit
  intro c hc
  rw [ip4ToStr_eq] at hc
  simp only [quad, List.mem_append, List.mem_cons] at hc
  rcases hc with hc | rfl | hc | rfl | hc | rfl | hc
  · exact hbyte _ c hc
  · decide
  · exact hbyte _ c hc
  · decide
  · exact hbyte _ c hc
  · decide
  · exact hbyte _ c hc

theorem afterField_dot {ds : List UInt8} (h : ∀ c ∈ ds, isDigit c = true) (rest : List UInt8) :
    afterField (ds ++ dot :: rest) = rest := by
  rw [afterField_stop h isDigit_dot, if_pos rfl]

theorem fieldDigits_dot {ds : List UInt8} (h : ∀ c ∈ ds, isDigit c = true) (rest : List UInt8) :
    fieldDigits (ds ++ dot :: rest) 0 = ds := by
  rw [fieldDigits_zero, takeWhile_stop h isDigit_dot]

theorem fields_ip4ToStr (addr : UInt32) :
    ((List.range 4).map fun k => decimal (fieldDigits (ip4ToStr addr) k) % 256) =
      [addr.toNat % 256, addr.toNat / 2 ^ 8 % 256, addr.toNat / 2 ^ 16 % 256,
        addr.toNat / 2 ^ 24 % 256] := by
  have hbyte : ∀ n : UInt32, decimal (printU (n &&& 0xFF)) % 256 = n.toNat % 256 := by
    intro n
    rw [decimal_printU, toNat_low, Nat.mod_mod]
  rw [ip4ToStr_eq, quad]
  simp only [List.range_succ, List.range_zero, List.map_cons, List.map_nil,
    List.nil_append, List.cons_append, fieldDigits_succ, afterField_dot (isDigit_printU _),
    fieldDigits_dot (isDigit_printU _), hbyte]
  rw [fieldDigits_zero, takeWhile_digits (isDigit_printU _), hbyte]
  simp [Nat.shiftRight_eq_div_pow]

/-- What an address is printed as parses back to it, and every string parses to its fields. -/
theorem parseIp4_ip4ToStr :
    (∀ (a : UInt32) (mem : Nat → UInt8) (s fuel : Nat), Holds mem s (ip4ToStr a) →
      (ip4ToStr a).length + 6 ≤ fuel → parseIp4 mem fuel s = some a) ∧
    ∀ (mem : Nat → UInt8) (s : Nat) (text : List UInt8), Holds mem s text →
      ∃ r, (∀ fuel, text.length + 6 ≤ fuel → parseIp4 mem fuel s = some r) ∧
        r.toNat =
          Nat.ofDigits 256 ((List.range 4).map fun k => decimal (fieldDigits text k) % 256) := by
  refine ⟨?_, fun mem s text h => parseIp4_fields h⟩
  intro a mem s fuel h hfuel
  obtain ⟨r, hrun, hr⟩ := parseIp4_fields h
  rw [hrun fuel hfuel, Option.some_inj]
  apply UInt32.toNat_inj.mp
  have ha := a.toNat_lt
  rw [hr, fields_ip4ToStr]
  simp only [Nat.ofDigits_cons, Nat.ofDigits_nil]
  omega

theorem parseIp4_ip4ToStr_router :
    parseIp4 (stored (ip4ToStr 0x0F02000A)) 21 0 = some 0x0F02000A ∧
      ∃ r, (∀ fuel, 20 ≤ fuel →
        parseIp4 (stored ("4294967297.300".toList.map Char.toUInt8)) fuel 0 = some r) ∧
        r.toNat = 1 + 256 * 44 := by
  constructor
  · have hlen : (ip4ToStr 0x0F02000A).length ≤ 15 := ip4ToStr_eq _ ▸ length_quad _
    exact parseIp4_ip4ToStr.1 _ _ 0 21 (holds_stored (ip4ToStr_ne_zero _)) (by omega)
  · have hnonzero : ∀ c ∈ "4294967297.300".toList.map Char.toUInt8, c ≠ 0 := by decide +kernel
    obtain ⟨r, hrun, hr⟩ := parseIp4_ip4ToStr.2 _ 0 _ (holds_stored hnonzero)
    exact ⟨r, hrun, hr.trans (by decide +kernel)⟩

end FreedosMicroPython.Net.Ip4
