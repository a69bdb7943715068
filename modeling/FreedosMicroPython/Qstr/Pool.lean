import Mathlib.Data.Char
import Mathlib.Data.List.Sort
import Mathlib.Data.List.Lex
import Mathlib.Data.Prod.Lex
import FreedosMicroPython.Qstr.Literal
/-!
# The qstr pool

`main` of `gen_qstrdefs.py`: the macro names on its input become the lines of the
pool, first the QDEF0 lines of upstream's two lists, then the QDEF1 lines sorted by
the strings they stand for, which is what the interpreter's binary search needs.
-/

namespace FreedosMicroPython.Qstr.Pool

open FreedosMicroPython.Qstr.Escape FreedosMicroPython.Qstr.Literal

structure Upstream where
  codepoint2name : Nat → Option Str
  staticQstrList : List Str
  /-- A set: the script sorts it. -/
  unsortedQstrList : List Str

/-! ## The lines -/

inductive Kind where
  | qdef0
  | qdef1
  deriving DecidableEq, Repr

structure Line where
  kind : Kind
  macroName : Str
  original : Str
  deriving DecidableEq, Repr

def Line.render (bytesHash : Nat) (line : Line) : Str :=
  (match line.kind with
    | .qdef0 => "QDEF0(".toList
    | .qdef1 => "QDEF1(".toList) ++
  line.macroName ++ ", ".toList ++
  Nat.toDigits 10 (computeHash (encodeUtf8 line.original) bytesHash) ++ ", ".toList ++
  Nat.toDigits 10 line.original.length ++ ", ".toList ++
  cString line.original ++ ")\n".toList

/-! ## Reading the tokens -/

def isSpace (c : Char) : Bool :=
  c.toNat ∈ [0x9, 0xA, 0xB, 0xC, 0xD, 0x1C, 0x1D, 0x1E, 0x1F, 0x20, 0x85, 0xA0, 0x1680, 0x2000,
    0x2001, 0x2002, 0x2003, 0x2004, 0x2005, 0x2006, 0x2007, 0x2008, 0x2009, 0x200A, 0x2028,
    0x2029, 0x202F, 0x205F, 0x3000]

def strip (line : Str) : Str := ((line.dropWhile isSpace).reverse.dropWhile isSpace).reverse

def mpQstr : Str := "MP_QSTR_".toList

abbrev Seen := List (Str × Str)

variable (up : Upstream)

def readLine (seen : Seen) (line : Str) : Seen :=
  if !mpQstr.isPrefixOf (strip line) then seen
  else if strip line ∈ seen.map Prod.fst then seen
  else seen ++ [(strip line, unescape up.codepoint2name ((strip line).drop 8))]

def readLines (input : List Str) : Seen := input.foldl (readLine up) []

/-! ## Writing the pool -/

def macroOf (original : Str) : Str := mpQstr ++ qstrEscape up.codepoint2name original

def staticPool : List Str := up.staticQstrList ++ up.unsortedQstrList

def staticLines : List Line :=
  up.staticQstrList.map fun original => ⟨.qdef0, macroOf up original, original⟩

/-- One turn of the loop over `unsorted_qstr_list`; the macros of the lines so far are
`static_emitted`. -/
def emitUnsorted (lines : List Line) (original : Str) : List Line :=
  if macroOf up original ∈ lines.map Line.macroName then lines
  else lines ++ [⟨.qdef0, macroOf up original, original⟩]

def qdef0Lines : List Line :=
  (up.unsortedQstrList.insertionSort (· ≤ ·)).foldl (emitUnsorted up) (staticLines up)

def byteKey (s : Str) : List Nat := (encodeUtf8 s).map UInt8.toNat

def sortKey (item : Str × Str) : List Nat ×ₗ Str := toLex (byteKey item.2, item.1)

/-- The tokens in the order of the strings they stand for. -/
def Before (a b : Str × Str) : Prop := sortKey a ≤ sortKey b

instance : DecidableRel Before := fun a b => inferInstanceAs (Decidable (sortKey a ≤ sortKey b))

def skipped (item : Str × Str) : Bool :=
  item.1 ∈ (qdef0Lines up).map Line.macroName || item.2 ∈ staticPool up

def kept (input : List Str) : Seen :=
  ((readLines up input).insertionSort Before).filter fun item => !skipped up item

def qdef1Lines (input : List Str) : List Line :=
  (kept up input).map fun item => ⟨.qdef1, item.1, item.2⟩

def pool (input : List Str) : List Line := qdef0Lines up ++ qdef1Lines up input

def tokens (input : List Str) : List Str := (input.map strip).filter mpQstr.isPrefixOf

/-- Every token has one line, no two lines stand for the same string, and the QDEF1 lines
are in order and apart from the QDEF0 lines. -/
structure WellFormed (input : List Str) : Prop where
  defined : ∀ token ∈ tokens input, (pool up input).countP (·.macroName = token) = 1
  distinct : ((pool up input).map Line.original).Nodup
  ascending : (qdef1Lines up input).Pairwise fun a b => byteKey a.original < byteKey b.original
  disjoint : ∀ a ∈ qdef0Lines up, ∀ b ∈ qdef1Lines up input, a.original ≠ b.original

/-- What is taken as given of upstream: the static list repeats no string, and no two
strings of the lists share a macro. -/
structure UpstreamLaw : Prop where
  nodup : up.staticQstrList.Nodup
  injective : ∀ a ∈ staticPool up, ∀ b ∈ staticPool up, macroOf up a = macroOf up b → a = b

/-- The tokens that need a line of their own stand for different strings, none of which
is upstream's. -/
def Unmixed (input : List Str) : Prop :=
  ∀ token ∈ tokens input, token ∉ (qdef0Lines up).map Line.macroName →
    unescape up.codepoint2name (token.drop 8) ∉ staticPool up ∧
    ∀ token' ∈ tokens input, token' ∉ (qdef0Lines up).map Line.macroName →
      unescape up.codepoint2name (token'.drop 8) = unescape up.codepoint2name (token.drop 8) →
      token' = token

/-! ## What is read -/

variable {up}

theorem readLines_concat (input : List Str) (line : Str) :
    readLines up (input ++ [line]) = readLine up (readLines up input) line := by
  simp [readLines]

theorem tokens_concat (input : List Str) (line : Str) :
    tokens (input ++ [line]) =
      tokens input ++ if mpQstr.isPrefixOf (strip line) then [strip line] else [] := by
  by_cases hline : mpQstr.isPrefixOf (strip line) <;> simp [tokens, hline]

/-- The dictionary has each token once, with the string it stands for. -/
structure Reads (up : Upstream) (input : List Str) (seen : Seen) : Prop where
  nodup : (seen.map Prod.fst).Nodup
  mem : ∀ token, token ∈ seen.map Prod.fst ↔ token ∈ tokens input
  decoded : ∀ item ∈ seen, item.2 = unescape up.codepoint2name (item.1.drop 8)

theorem reads (up : Upstream) (input : List Str) : Reads up input (readLines up input) := by
  induction input using List.reverseRecOn with
  | nil => exact ⟨by simp [readLines], by simp [readLines, tokens], by simp [readLines]⟩
  | append_singleton input line ih =>
      rw [readLines_concat, readLine]
      by_cases hline : mpQstr.isPrefixOf (strip line)
      · by_cases hseen : strip line ∈ (readLines up input).map Prod.fst
        · rw [if_neg (by simp [hline]), if_pos hseen]
          refine ⟨ih.nodup, fun token => ?_, ih.decoded⟩
          rw [tokens_concat, if_pos hline, List.mem_append, ← ih.mem, List.mem_singleton]
          exact ⟨.inl, fun h => h.elim id fun h => h ▸ hseen⟩
        · rw [if_neg (by simp [hline]), if_neg hseen]
          refine ⟨?_, fun token => ?_, fun item hitem => ?_⟩
          · rw [List.map_append, List.map_singleton]
            exact ih.nodup.append (List.nodup_singleton _) (by simpa using hseen)
          · rw [tokens_concat, if_pos hline, List.map_append, List.mem_append, List.mem_append,
              ih.mem]
            rfl
          · rcases List.mem_append.mp hitem with hitem | hitem
            · exact ih.decoded item hitem
            · rw [List.mem_singleton.mp hitem]
      · rw [if_pos (by simp [hline])]
        refine ⟨ih.nodup, fun token => ?_, ih.decoded⟩
        rw [tokens_concat, if_neg hline, List.append_nil]
        exact ih.mem token

/-! ## The QDEF0 lines -/

structure Given (up : Upstream) (lines : List Line) : Prop where
  macroOf : ∀ line ∈ lines, line.macroName = macroOf up line.original
  mem : ∀ line ∈ lines, line.original ∈ staticPool up
  nodup : (lines.map Line.macroName).Nodup

theorem Given.static (h : UpstreamLaw up) : Given up (staticLines up) where
  macroOf line hline := by
    obtain ⟨original, -, rfl⟩ := List.mem_map.mp hline
    rfl
  mem line hline := by
    obtain ⟨original, hmem, rfl⟩ := List.mem_map.mp hline
    exact List.mem_append_left _ hmem
  nodup := by
    rw [staticLines, List.map_map]
    refine List.Nodup.map_on (fun a ha b hb => ?_) h.nodup
    exact h.injective a (List.mem_append_left _ ha) b (List.mem_append_left _ hb)

theorem Given.emitUnsorted {lines : List Line} (h : Given up lines) {original : Str}
    (hmem : original ∈ up.unsortedQstrList) : Given up (emitUnsorted up lines original) := by
  unfold Pool.emitUnsorted
  split
  · exact h
  · rename_i hnew
    refine ⟨fun line hline => ?_, fun line hline => ?_, ?_⟩
    · rcases List.mem_append.mp hline with hline | hline
      · exact h.macroOf line hline
      · rw [List.mem_singleton.mp hline]
    · rcases List.mem_append.mp hline with hline | hline
      · exact h.mem line hline
      · rw [List.mem_singleton.mp hline]
        exact List.mem_append_right _ hmem
    · rw [List.map_append, List.map_singleton]
      exact h.nodup.append (List.nodup_singleton _) (by simpa using hnew)

theorem Given.foldl {lines : List Line} (h : Given up lines) {originals : List Str}
    (hmem : ∀ original ∈ originals, original ∈ up.unsortedQstrList) :
    Given up (originals.foldl (Pool.emitUnsorted up) lines) := by
  induction originals generalizing lines with
  | nil => exact h
  | cons original originals ih =>
      exact ih (h.emitUnsorted (hmem original (by simp))) fun o ho => hmem o (by simp [ho])

theorem qdef0Lines_given (h : UpstreamLaw up) : Given up (qdef0Lines up) :=
  (Given.static h).foldl fun _ horiginal =>
    (List.perm_insertionSort (· ≤ ·) up.unsortedQstrList).mem_iff.mp horiginal

/-- No two of the lines stand for the same string, as they have different macros. -/
theorem Given.nodup_original {lines : List Line} (h : Given up lines) :
    (lines.map Line.original).Nodup := by
  have hmap : lines.map Line.macroName = (lines.map Line.original).map (Pool.macroOf up) := by
    rw [List.map_map]
    exact List.map_congr_left h.macroOf
  have hnodup := h.nodup
  rw [hmap] at hnodup
  exact hnodup.of_map

/-! ## The QDEF1 lines -/

theorem mem_kept {input : List Str} {item : Str × Str} :
    item ∈ kept up input ↔ item.1 ∈ tokens input ∧
      item.2 = unescape up.codepoint2name (item.1.drop 8) ∧
      item.1 ∉ (qdef0Lines up).map Line.macroName ∧ item.2 ∉ staticPool up := by
  have hread := reads up input
  have hsorted : item ∈ (readLines up input).insertionSort Before ↔ item ∈ readLines up input :=
    (List.perm_insertionSort Before _).mem_iff
  have hitem : item ∈ readLines up input ↔
      item.1 ∈ tokens input ∧ item.2 = unescape up.codepoint2name (item.1.drop 8) := by
    constructor
    · intro h
      exact ⟨(hread.mem item.1).mp (List.mem_map_of_mem h), hread.decoded item h⟩
    · rintro ⟨htoken, horiginal⟩
      obtain ⟨item', h, hfst⟩ := List.mem_map.mp ((hread.mem item.1).mpr htoken)
      have hsnd := hread.decoded item' h
      rw [hfst, ← horiginal] at hsnd
      rwa [← Prod.ext hfst hsnd]
  rw [kept, List.mem_filter, hsorted, hitem, skipped]
  simp [and_assoc]

theorem nodup_kept (input : List Str) : ((kept up input).map Prod.fst).Nodup := by
  have hperm := (List.perm_insertionSort Before (readLines up input)).map Prod.fst
  have hnodup := hperm.nodup_iff.mpr (reads up input).nodup
  exact hnodup.sublist (List.Sublist.map _ List.filter_sublist)

theorem byteKey_injective : Function.Injective byteKey := by
  intro s t h
  have hbytes : encodeUtf8 s = encodeUtf8 t :=
    List.map_injective_iff.mpr (fun _ _ => UInt8.toNat_inj.mp) h
  have hstring : String.ofList s = String.ofList t := by
    apply String.toByteArray_inj.mp
    rw [String.toByteArray_ofList, String.toByteArray_ofList, List.utf8Encode, List.utf8Encode]
    exact congrArg _ hbytes
  simpa using congrArg String.toList hstring

theorem pairwise_kept {input : List Str} (h : ((kept up input).map Prod.snd).Nodup) :
    (kept up input).Pairwise fun a b => byteKey a.2 < byteKey b.2 := by
  have hsorted : ((readLines up input).insertionSort Before).Pairwise Before := by
    have : Std.Total Before := ⟨fun a b => le_total (sortKey a) (sortKey b)⟩
    have : IsTrans (Str × Str) Before := ⟨fun a b c => le_trans⟩
    exact List.pairwise_insertionSort Before _
  have hkept : (kept up input).Pairwise Before := hsorted.filter _
  refine (hkept.and (List.pairwise_map.mp h)).imp ?_
  rintro a b ⟨hle, hne⟩
  rcases Prod.Lex.toLex_le_toLex.mp hle with hlt | ⟨heq, -⟩
  · exact hlt
  · exact absurd (byteKey_injective heq) hne

/-! ## The pool -/

theorem countP_macroName (lines : List Line) (token : Str) :
    lines.countP (·.macroName = token) = (lines.map Line.macroName).count token := by
  rw [List.count, List.countP_map]
  refine congrArg (List.countP · lines) ?_
  funext line
  exact (beq_eq_decide line.macroName token).symm

theorem map_macroName_qdef1 (input : List Str) :
    (qdef1Lines up input).map Line.macroName = (kept up input).map Prod.fst := by
  rw [qdef1Lines, List.map_map]
  rfl

theorem map_original_qdef1 (input : List Str) :
    (qdef1Lines up input).map Line.original = (kept up input).map Prod.snd := by
  rw [qdef1Lines, List.map_map]
  rfl

theorem mem_kept_of_mem_pool {input : List Str} {token : Str}
    (htoken : token ∉ (qdef0Lines up).map Line.macroName)
    (hpool : token ∈ (pool up input).map Line.macroName) :
    (token, unescape up.codepoint2name (token.drop 8)) ∈ kept up input := by
  rw [pool, List.map_append, List.mem_append, map_macroName_qdef1] at hpool
  obtain ⟨item, hitem, rfl⟩ := List.mem_map.mp (hpool.resolve_left htoken)
  rwa [← (mem_kept.mp hitem).2.1]

theorem disjoint_qdef1 (h : UpstreamLaw up) (input : List Str) :
    ∀ a ∈ qdef0Lines up, ∀ b ∈ qdef1Lines up input, a.original ≠ b.original := by
  intro a ha b hb heq
  obtain ⟨item, hitem, rfl⟩ := List.mem_map.mp hb
  have hgiven := (qdef0Lines_given h).mem a ha
  rw [heq] at hgiven
  exact (mem_kept.mp hitem).2.2.2 hgiven

theorem WellFormed.unmixed {input : List Str} (h : WellFormed up input) : Unmixed up input := by
  have hkept : ∀ token ∈ tokens input, token ∉ (qdef0Lines up).map Line.macroName →
      (token, unescape up.codepoint2name (token.drop 8)) ∈ kept up input := by
    intro token htoken hnew
    have hcount := h.defined token htoken
    rw [countP_macroName] at hcount
    exact mem_kept_of_mem_pool hnew (List.count_pos_iff.mp (by omega))
  have hnodup : ((kept up input).map Prod.snd).Nodup := by
    have hdistinct := h.distinct
    rw [pool, List.map_append, map_original_qdef1] at hdistinct
    exact hdistinct.of_append_right
  intro token htoken hnew
  have hmem := hkept token htoken hnew
  refine ⟨(mem_kept.mp hmem).2.2.2, fun token' htoken' hnew' heq => ?_⟩
  have hpair := List.inj_on_of_nodup_map hnodup (hkept token' htoken' hnew') hmem heq
  exact congrArg Prod.fst hpair

theorem Unmixed.nodup_original {input : List Str} (h : Unmixed up input) :
    ((kept up input).map Prod.snd).Nodup := by
  refine List.Nodup.map_on (fun a ha b hb heq => ?_) (nodup_kept input).of_map
  obtain ⟨hatoken, ha2, hanew, -⟩ := mem_kept.mp ha
  obtain ⟨hbtoken, hb2, hbnew, -⟩ := mem_kept.mp hb
  have hfst := (h b.1 hbtoken hbnew).2 a.1 hatoken hanew (by rw [← ha2, ← hb2, heq])
  exact Prod.ext hfst heq

theorem Unmixed.wellFormed (hup : UpstreamLaw up) {input : List Str} (h : Unmixed up input) :
    WellFormed up input := by
  have hgiven := qdef0Lines_given hup
  have hdisjoint := disjoint_qdef1 hup input
  refine ⟨fun token htoken => ?_, ?_, ?_, hdisjoint⟩
  · rw [countP_macroName, pool, List.map_append, List.count_append, map_macroName_qdef1]
    by_cases hnew : token ∈ (qdef0Lines up).map Line.macroName
    · have hnone : token ∉ (kept up input).map Prod.fst := by
        intro hmem
        obtain ⟨item, hitem, rfl⟩ := List.mem_map.mp hmem
        exact (mem_kept.mp hitem).2.2.1 hnew
      rw [List.count_eq_one_of_mem hgiven.nodup hnew, List.count_eq_zero_of_not_mem hnone]
    · have hmem : (token, unescape up.codepoint2name (token.drop 8)) ∈ kept up input :=
        mem_kept.mpr ⟨htoken, rfl, hnew, (h token htoken hnew).1⟩
      rw [List.count_eq_zero_of_not_mem hnew,
        List.count_eq_one_of_mem (nodup_kept input) (List.mem_map_of_mem hmem)]
  · rw [pool, List.map_append]
    refine hgiven.nodup_original.append ?_ ?_
    · rw [map_original_qdef1]
      exact h.nodup_original
    · intro s hs hs'
      obtain ⟨a, ha, rfl⟩ := List.mem_map.mp hs
      obtain ⟨b, hb, heq⟩ := List.mem_map.mp hs'
      exact hdisjoint a ha b hb heq.symm
  · rw [qdef1Lines, List.pairwise_map]
    exact pairwise_kept h.nodup_original

/-- The pool is well formed exactly when the tokens that need a line of their own stand
for different strings, none of which is upstream's. -/
theorem wellFormed_iff (hup : UpstreamLaw up) (input : List Str) :
    WellFormed up input ↔ Unmixed up input :=
  ⟨WellFormed.unmixed, Unmixed.wellFormed hup⟩

def testedUpstream : Upstream where
  codepoint2name := testedNames
  staticQstrList := ["".toList, "__dir__".toList, "print".toList]
  unsortedQstrList := ["__lt__".toList, "{:#x}".toList]

theorem testedUpstream_law : UpstreamLaw testedUpstream := ⟨by decide, by decide⟩

theorem wellFormed_print :
    WellFormed testedUpstream
      ["MP_QSTR_print\n".toList, "MP_QSTR__0x0a_\n".toList, "MP_QSTR__lt_\n".toList] :=
  (wellFormed_iff testedUpstream_law _).mpr (by unfold Unmixed; decide)

/-- Two spellings of `<` give two lines for one string. -/
theorem not_wellFormed_lt :
    ¬WellFormed testedUpstream ["MP_QSTR__lt_\n".toList, "MP_QSTR__0x3c_\n".toList] := by
  intro h
  exact absurd h.distinct (by decide)

end FreedosMicroPython.Qstr.Pool
