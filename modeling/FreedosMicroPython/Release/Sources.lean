import FreedosMicroPython.Lib.Pieces
import FreedosMicroPython.Release.Names
/-!
# The archive of the sources

`build_sources_zip` of `release/mkfdpkg.py`: what git lists is split at whitespace, and each word
that names a file outside `rigs/` is stored. How git prints a path with unusual characters, the
working tree and the contents of `BUILD.txt` are parameters.
-/

namespace FreedosMicroPython.Release

open FreedosMicroPython.Lib.Pieces

/-! ## What git lists -/

def isSpace (c : CodePoint) : Bool :=
  c.val ∈ [0x9, 0xA, 0xB, 0xC, 0xD, 0x1C, 0x1D, 0x1E, 0x1F, 0x20, 0x85, 0xA0, 0x1680, 0x2000,
    0x2001, 0x2002, 0x2003, 0x2004, 0x2005, 0x2006, 0x2007, 0x2008, 0x2009, 0x200A, 0x2028,
    0x2029, 0x202F, 0x205F, 0x3000]

/-- No component is empty or a name for a directory itself or the one above it. -/
def Proper (path : Str) : Prop :=
  ∀ comp ∈ path.splitOn slash, comp ≠ [] ∧ comp ≠ str "." ∧ comp ≠ str ".."

inductive Kind where
  | regular
  | symlink
  | gitlink
  deriving DecidableEq, Repr

structure Entry where
  path : Str
  kind : Kind
  proper : Proper path

def quoteMark : CodePoint := 0x22

def backslash : CodePoint := 0x5C

/-- How git prints paths: one with unusual characters stands between quotation marks, with these
characters escaped. Which characters are unusual depends on its configuration. -/
structure Quoting where
  unusual : CodePoint → Bool
  escape : CodePoint → Str
  slash_usual : unusual slash = false
  escape_backslash : ∀ c, unusual c = true →
    ∃ t, escape c = backslash :: t ∧ ∀ d ∈ t, isSpace d = false ∧ d ≠ slash

def Quoting.char (q : Quoting) (c : CodePoint) : Str := if q.unusual c then q.escape c else [c]

def Quoting.line (q : Quoting) (path : Str) : Str :=
  if path.any q.unusual then quoteMark :: path.flatMap q.char ++ [quoteMark] else path

/-- The repository: what git tracks, whether it fails, and for every path from the root what
`is_file` and reading it come to. -/
structure Tree where
  tracked : List Entry
  nodup : (tracked.map Entry.path).Nodup
  gitError : Option Exn
  file : Str → Option (Except Exn (List UInt8))

def lsFiles (q : Quoting) (t : Tree) : Except Exn Str :=
  match t.gitError with
  | some e => .error e
  | none => .ok (t.tracked.flatMap fun e => q.line e.path ++ [lf])

/-! ## The archive -/

structure Member where
  name : Str
  data : List UInt8
  deriving DecidableEq

def addComp (initialSlashes : Nat) (newComps : List Str) (comp : Str) : List Str :=
  if comp = [] ∨ comp = str "." then newComps
  else if comp ≠ str ".." ∨ (initialSlashes = 0 ∧ newComps = []) ∨
      newComps.getLast? = some (str "..") then newComps ++ [comp]
  else newComps.dropLast

def initialSlashes (path : Str) : Nat :=
  if ¬ [slash] <+: path then 0
  else if [slash, slash] <+: path ∧ ¬ [slash, slash, slash] <+: path then 2
  else 1

def normpath (path : Str) : Str :=
  let newComps := (path.splitOn slash).foldl (addComp (initialSlashes path)) []
  let path := List.replicate (initialSlashes path) slash ++ [slash].intercalate newComps
  if path = [] then str "." else path

/-- The name of a member that `ZipFile.write` stores under `rel`. -/
def arcname (rel : Str) : Except Exn Str :=
  let name := (normpath rel).dropWhile (· = slash)
  if name = [] then .error .indexError else .ok name

def zipWrite (rel : Str) (contents : Except Exn (List UInt8)) : Except Exn Member := do
  let name ← arcname rel
  let data ← contents
  return ⟨name, data⟩

def addTracked (t : Tree) : List Str → List Member → Except Exn (List Member)
  | [], z => .ok z
  | rel :: rels, z =>
      if str "rigs/" <+: rel then addTracked t rels z
      else
        match t.file rel with
        | none => addTracked t rels z
        | some contents =>
            match zipWrite rel contents with
            | .error e => .error e
            | .ok m => addTracked t rels (z ++ [m])

def buildSourcesZip (q : Quoting) (buildTxt : Str → List UInt8) (t : Tree)
    (uc386Version : Str) : Except Exn (List Member) :=
  match lsFiles q t with
  | .error e => .error e
  | .ok out => addTracked t (wordsOf isSpace out) [⟨str "BUILD.txt", buildTxt uc386Version⟩]

/-! ## What the archive should hold -/

def Entry.required (e : Entry) : Bool := e.kind = .regular ∧ ¬ str "rigs/" <+: e.path

def archived (t : Tree) (rel : Str) : Option (Except Exn Member) :=
  if str "rigs/" <+: rel then none else (t.file rel).map (zipWrite rel)

def memberOf (t : Tree) (e : Entry) : Option Member :=
  match t.file e.path with
  | some (.ok data) => some ⟨e.path, data⟩
  | _ => none

/-- Besides `BUILD.txt` an archive that is made holds every tracked regular file outside `rigs/`,
once and under its own path, and no line of such a file was skipped. -/
def Complete (q : Quoting) (buildTxt : Str → List UInt8) (t : Tree) (uc386Version : Str) : Prop :=
  ∀ z, buildSourcesZip q buildTxt t uc386Version = .ok z →
    (z.map some).Perm
      (some ⟨str "BUILD.txt", buildTxt uc386Version⟩ ::
        (t.tracked.filter Entry.required).map (memberOf t)) ∧
    (z.map Member.name).Nodup ∧
    ∀ e ∈ t.tracked, e.required = true →
      ∃ rel ∈ wordsOf isSpace (q.line e.path), ∃ m, archived t rel = some (.ok m) ∧
        m.name = e.path

/-! ## Names of members -/

theorem comps_eq (path : Str) : path.splitOn slash = path.splitOnP (· == slash) :=
  List.splitOn_eq_splitOnP

theorem Proper.cons_quote {path : Str} (h : Proper path) : Proper (quoteMark :: path) := by
  intro comp hcomp
  rw [comps_eq, List.splitOnP_cons_eq_if_modifyHead, if_neg (by decide), ← comps_eq] at hcomp
  obtain ⟨first, rest, hpath⟩ := List.exists_cons_of_ne_nil (List.splitOn_ne_nil slash path)
  rw [hpath, List.modifyHead_cons, List.mem_cons] at hcomp
  rcases hcomp with rfl | hcomp
  · refine ⟨List.cons_ne_nil quoteMark first, ?_, ?_⟩ <;> intro heq <;>
      exact absurd (List.cons.inj heq).1 (by decide)
  · exact h comp (by rw [hpath]; exact List.mem_cons_of_mem first hcomp)

theorem Proper.concat_quote {path : Str} (h : Proper path) : Proper (path ++ [quoteMark]) := by
  intro comp hcomp
  obtain ⟨init, last, hpath, hconcat⟩ :=
    splitOnP_concat (p := (· == slash)) (c := quoteMark) (by decide) path
  rw [comps_eq, hconcat, List.mem_append, List.mem_singleton] at hcomp
  rcases hcomp with hcomp | rfl
  · exact h comp (by rw [comps_eq, hpath]; exact List.mem_append_left [last] hcomp)
  · refine ⟨List.concat_ne_nil quoteMark last, ?_, ?_⟩ <;> intro heq
    · have hmem : quoteMark ∈ str "." := heq ▸ List.mem_append_right last List.mem_cons_self
      exact absurd hmem (by decide)
    · have hmem : quoteMark ∈ str ".." := heq ▸ List.mem_append_right last List.mem_cons_self
      exact absurd hmem (by decide)

theorem Proper.ne_nil {path : Str} (h : Proper path) : path ≠ [] := by
  rintro rfl
  exact (h [] List.mem_cons_self).1 rfl

theorem Proper.head_ne {path : Str} (h : Proper path) : ¬ [slash] <+: path := by
  rintro ⟨t, rfl⟩
  refine (h [] ?_).1 rfl
  rw [List.singleton_append, comps_eq, List.splitOnP_cons_eq_if_modifyHead, if_pos (by decide)]
  exact List.mem_cons_self

theorem foldl_addComp_proper {comps : List Str}
    (h : ∀ comp ∈ comps, comp ≠ [] ∧ comp ≠ str "." ∧ comp ≠ str "..") (newComps : List Str) :
    comps.foldl (addComp 0) newComps = newComps ++ comps := by
  induction comps generalizing newComps with
  | nil => exact (List.append_nil newComps).symm
  | cons comp comps ih =>
      obtain ⟨⟨hne, hdot, hdots⟩, hcomps⟩ := List.forall_mem_cons.mp h
      have hadd : addComp 0 newComps comp = newComps ++ [comp] := by
        rw [addComp, if_neg (not_or.mpr ⟨hne, hdot⟩), if_pos (.inl hdots)]
      rw [List.foldl_cons, hadd, ih hcomps, List.append_assoc]
      rfl

theorem arcname_proper {path : Str} (h : Proper path) : arcname path = .ok path := by
  have hinitial : initialSlashes path = 0 := if_pos h.head_ne
  have hnorm : normpath path = path := by
    rw [normpath, hinitial]
    simp only [foldl_addComp_proper h, List.nil_append, List.intercalate_splitOn,
      List.replicate_zero, h.ne_nil, if_false]
  obtain ⟨c, s, rfl⟩ := List.exists_cons_of_ne_nil h.ne_nil
  have hc : c ≠ slash := by
    rintro rfl
    exact h.head_ne (List.prefix_append [slash] s)
  rw [arcname, hnorm, List.dropWhile_cons_of_neg (by simpa using hc)]
  exact if_neg (List.cons_ne_nil c s)

theorem mem_addComp {n : Nat} {newComps : List Str} {comp comp' : Str}
    (h : comp' ∈ addComp n newComps comp) : comp' ∈ newComps ∨ comp' = comp := by
  rw [addComp] at h
  split at h
  · exact .inl h
  · split at h
    · simpa using h
    · exact .inl (List.mem_of_mem_dropLast h)

theorem mem_foldl_addComp {n : Nat} {comps newComps : List Str} {comp : Str}
    (h : comp ∈ comps.foldl (addComp n) newComps) : comp ∈ newComps ∨ comp ∈ comps := by
  induction comps generalizing newComps with
  | nil => exact .inl h
  | cons first comps ih =>
      rcases ih h with h | h
      · rcases mem_addComp h with h | rfl
        · exact .inl h
        · exact .inr List.mem_cons_self
      · exact .inr (List.mem_cons_of_mem first h)

theorem mem_normpath {path : Str} {c : CodePoint} (h : c ∈ normpath path) :
    c = slash ∨ c = dot ∨ c ∈ path := by
  rw [normpath] at h
  split at h
  · exact .inr (.inl (List.mem_singleton.mp h))
  · rcases List.mem_append.mp h with h | h
    · exact .inl (List.eq_of_mem_replicate h)
    · obtain hsep | ⟨comp, hcomp, hc⟩ := mem_intercalate h
      · exact .inl hsep
      · have hpiece := (mem_foldl_addComp hcomp).resolve_left List.not_mem_nil
        rw [comps_eq] at hpiece
        exact .inr (.inr (of_mem_piece hpiece hc).1)

theorem not_space_of_mem_arcname {rel name : Str} (h : arcname rel = .ok name)
    (hrel : ∀ c ∈ rel, isSpace c = false) : ∀ c ∈ name, isSpace c = false := by
  rw [arcname] at h
  split at h
  · cases h
  · cases h
    intro c hc
    rcases mem_normpath ((List.dropWhile_sublist _).subset hc) with rfl | rfl | hmem
    · decide
    · decide
    · exact hrel c hmem

/-! ## Lines of the listing -/

section

variable {q : Quoting}

theorem Quoting.char_usual {c : CodePoint} (h : q.unusual c = false) : q.char c = [c] := by
  rw [Quoting.char, if_neg (by rw [h]; exact Bool.false_ne_true)]

theorem Quoting.char_unusual {c : CodePoint} (h : q.unusual c = true) : q.char c = q.escape c :=
  if_pos h

theorem Quoting.char_ne_nil (c : CodePoint) : q.char c ≠ [] := by
  cases hc : q.unusual c with
  | false =>
      rw [q.char_usual hc]
      exact List.cons_ne_nil c []
  | true =>
      obtain ⟨t, ht, -⟩ := q.escape_backslash c hc
      rw [q.char_unusual hc, ht]
      exact List.cons_ne_nil backslash t

/-- What is printed for a character has a slash or whitespace only where it has been there. -/
theorem Quoting.mem_char {c d : CodePoint} (h : d ∈ q.char c) :
    d = c ∨ isSpace d = false ∧ d ≠ slash := by
  cases hc : q.unusual c with
  | false =>
      rw [q.char_usual hc] at h
      exact .inl (List.mem_singleton.mp h)
  | true =>
      obtain ⟨t, ht, hplain⟩ := q.escape_backslash c hc
      rw [q.char_unusual hc, ht, List.mem_cons] at h
      rcases h with rfl | h
      · exact .inr (by decide)
      · exact .inr (hplain d h)

theorem Quoting.proper_comp {comp : Str}
    (h : comp ≠ [] ∧ comp ≠ str "." ∧ comp ≠ str "..") :
    comp.flatMap q.char ≠ [] ∧ comp.flatMap q.char ≠ str "." ∧
      comp.flatMap q.char ≠ str ".." := by
  by_cases husual : ∀ c ∈ comp, q.unusual c = false
  · have hsame : comp.flatMap q.char = comp := by
      rw [List.flatMap_congr fun c hc => q.char_usual (husual c hc)]
      exact List.flatMap_singleton' comp
    rwa [hsame]
  · obtain ⟨c, hc, hunusual⟩ : ∃ c ∈ comp, q.unusual c = true := by simpa using husual
    have hmem : backslash ∈ comp.flatMap q.char := by
      obtain ⟨t, ht, -⟩ := q.escape_backslash c hunusual
      refine List.mem_flatMap.mpr ⟨c, hc, ?_⟩
      rw [q.char_unusual hunusual, ht]
      exact List.mem_cons_self
    refine ⟨List.ne_nil_of_mem hmem, ?_, ?_⟩ <;> intro heq <;> rw [heq] at hmem <;>
      exact absurd hmem (by decide)

theorem Quoting.proper_chars {path : Str} (h : Proper path) : Proper (path.flatMap q.char) := by
  have hsplit : (path.flatMap q.char).splitOnP (· == slash) =
      (path.splitOnP (· == slash)).map (·.flatMap q.char) := by
    refine splitOnP_flatMap (fun c hc => ?_) (fun c hc d hd => ?_) path
    · rw [eq_of_beq hc]
      exact ⟨slash, q.char_usual q.slash_usual, beq_self_eq_true slash⟩
    · rcases q.mem_char hd with rfl | ⟨-, hne⟩
      · exact hc
      · exact beq_eq_false_iff_ne.mpr hne
  intro comp hcomp
  rw [comps_eq, hsplit] at hcomp
  obtain ⟨comp', hcomp', rfl⟩ := List.mem_map.mp hcomp
  exact q.proper_comp (h comp' (by rw [comps_eq]; exact hcomp'))

theorem Quoting.length_chars (path : Str) : path.length ≤ (path.flatMap q.char).length := by
  induction path with
  | nil => exact Nat.le_refl 0
  | cons c path ih =>
      have hpos := List.length_pos_iff.mpr (q.char_ne_nil c)
      rw [List.flatMap_cons, List.length_append, List.length_cons]
      omega

/-- A path that git prints as it is, and whitespace does not break. -/
def Quoting.Plain (q : Quoting) (path : Str) : Prop :=
  ∀ c ∈ path, isSpace c = false ∧ q.unusual c = false

theorem Quoting.Plain.words {path : Str} (h : q.Plain path) (hne : path ≠ []) :
    wordsOf isSpace (q.line path) = [path] := by
  have hline : q.line path = path := by
    rw [Quoting.line, if_neg]
    simpa using fun c hc => (h c hc).2
  rw [hline, wordsOf_word hne fun c hc => (h c hc).1]

theorem Quoting.plain_of_arcname {path rel : Str} (hpath : Proper path)
    (hrel : rel ∈ wordsOf isSpace (q.line path)) (hname : arcname rel = .ok path) :
    q.Plain path := by
  have hspace := not_space_of_mem_arcname hname fun c hc => (of_mem_word hrel hc).2
  intro c hc
  refine ⟨hspace c hc, ?_⟩
  by_contra hunusual
  have hany : path.any q.unusual = true :=
    List.any_eq_true.mpr ⟨c, hc, Bool.eq_true_of_not_eq_false hunusual⟩
  have hquoted : q.line path = quoteMark :: path.flatMap q.char ++ [quoteMark] := if_pos hany
  have hplain : ∀ d ∈ q.line path, isSpace d = false := by
    intro d hd
    rw [hquoted] at hd
    rcases List.mem_append.mp hd with hd | hd
    · rcases List.mem_cons.mp hd with rfl | hd
      · decide
      · obtain ⟨c', hc', hd⟩ := List.mem_flatMap.mp hd
        rcases q.mem_char hd with rfl | ⟨hd, -⟩
        · exact hspace d hc'
        · exact hd
    · rw [List.mem_singleton.mp hd]
      decide
  have hproper : Proper (q.line path) := by
    rw [hquoted]
    exact (Quoting.proper_chars hpath).cons_quote.concat_quote
  rw [wordsOf_word hproper.ne_nil hplain, List.mem_singleton] at hrel
  rw [hrel, arcname_proper hproper] at hname
  have hlen := congrArg List.length (Except.ok.inj hname)
  have hle := q.length_chars path
  rw [hquoted, List.length_append, List.length_cons] at hlen
  omega

end

/-! ## The loop -/

section

variable {q : Quoting} {t : Tree}

def fetched (t : Tree) (rel : Str) : Option Member := (archived t rel).bind Except.toOption

theorem addTracked_cons (rel : Str) (rels : List Str) (z : List Member) :
    addTracked t (rel :: rels) z =
      match archived t rel with
      | none => addTracked t rels z
      | some (.error e) => .error e
      | some (.ok m) => addTracked t rels (z ++ [m]) := by
  rw [addTracked, archived]
  by_cases hrigs : str "rigs/" <+: rel
  · rw [if_pos hrigs, if_pos hrigs]
  · rw [if_neg hrigs, if_neg hrigs]
    cases t.file rel with
    | none => rfl
    | some contents =>
        simp only [Option.map_some]
        cases zipWrite rel contents <;> rfl

theorem addTracked_ok {rels : List Str} (h : ∀ rel ∈ rels, ∀ e, archived t rel ≠ some (.error e))
    (z : List Member) : addTracked t rels z = .ok (z ++ rels.filterMap (fetched t)) := by
  induction rels generalizing z with
  | nil => rw [addTracked, List.filterMap_nil, List.append_nil]
  | cons rel rels ih =>
      obtain ⟨hrel, hrels⟩ := List.forall_mem_cons.mp h
      rw [addTracked_cons, List.filterMap_cons, fetched]
      cases hstored : archived t rel with
      | none => exact ih hrels z
      | some stored =>
          cases stored with
          | error e => exact absurd hstored (hrel e)
          | ok m =>
              refine (ih hrels (z ++ [m])).trans ?_
              rw [List.append_assoc]
              rfl

theorem addTracked_error {rels : List Str} {rel : Str} {e : Exn} (hmem : rel ∈ rels)
    (hfails : archived t rel = some (.error e)) (z : List Member) :
    ∃ e', addTracked t rels z = .error e' := by
  induction rels generalizing z with
  | nil => cases hmem
  | cons first rels ih =>
      rw [addTracked_cons]
      rcases List.mem_cons.mp hmem with rfl | hmem
      · rw [hfails]
        exact ⟨e, rfl⟩
      · cases archived t first with
        | none => exact ih hmem z
        | some stored =>
            cases stored with
            | error e' => exact ⟨e', rfl⟩
            | ok m => exact ih hmem (z ++ [m])

/-! ## Complete archives -/

def listed (q : Quoting) (t : Tree) : List Str :=
  t.tracked.flatMap fun e => wordsOf isSpace (q.line e.path)

/-- git fails, or a file that its listing names cannot be stored. -/
def Fails (q : Quoting) (t : Tree) : Prop :=
  t.gitError ≠ none ∨ ∃ rel ∈ listed q t, ∃ e, archived t rel = some (.error e)

/-- The line of a tracked file that is to be stored comes back as its path, which is there and
is not that of the generated member. The words of another line name nothing that is stored. -/
def ReadRight (q : Quoting) (t : Tree) (e : Entry) : Prop :=
  if e.required then q.Plain e.path ∧ t.file e.path ≠ none ∧ e.path ≠ str "BUILD.txt"
  else ∀ rel ∈ wordsOf isSpace (q.line e.path), str "rigs/" <+: rel ∨ t.file rel = none

def fromLine (q : Quoting) (t : Tree) (e : Entry) : List Member :=
  (wordsOf isSpace (q.line e.path)).filterMap (fetched t)

theorem archived_eq_none {rel : Str} :
    archived t rel = none ↔ str "rigs/" <+: rel ∨ t.file rel = none := by
  rw [archived]
  by_cases hrigs : str "rigs/" <+: rel
  · rw [if_pos hrigs]
    exact iff_of_true rfl (.inl hrigs)
  · rw [if_neg hrigs, Option.map_eq_none_iff, or_iff_right hrigs]

theorem fetched_eq_some {rel : Str} {m : Member} :
    fetched t rel = some m ↔ archived t rel = some (.ok m) := by
  rw [fetched]
  cases archived t rel with
  | none => exact iff_of_false (fun h => nomatch h) fun h => nomatch h
  | some stored => cases stored <;> simp [Except.toOption]

theorem buildSourcesZip_of_git (hgit : t.gitError = none) (buildTxt : Str → List UInt8)
    (uc386Version : Str) :
    buildSourcesZip q buildTxt t uc386Version =
      addTracked t (listed q t) [⟨str "BUILD.txt", buildTxt uc386Version⟩] := by
  have hwords : wordsOf isSpace (t.tracked.flatMap fun e => q.line e.path ++ [lf]) =
      listed q t := by
    have hlf : isSpace lf = true := by decide
    have hlines := wordsOf_lines hlf (t.tracked.map fun e => q.line e.path)
    rw [List.flatMap_map, List.flatMap_map] at hlines
    exact hlines
  rw [buildSourcesZip, lsFiles, hgit]
  exact congrArg (addTracked t · _) hwords

theorem buildSourcesZip_of_fails (hfails : Fails q t) (buildTxt : Str → List UInt8)
    (uc386Version : Str) : ∃ e, buildSourcesZip q buildTxt t uc386Version = .error e := by
  cases hgit : t.gitError with
  | some e => exact ⟨e, by rw [buildSourcesZip, lsFiles, hgit]⟩
  | none =>
      obtain ⟨rel, hrel, e, he⟩ := hfails.resolve_left (not_not.mpr hgit)
      rw [buildSourcesZip_of_git hgit]
      exact addTracked_error hrel he _

theorem buildSourcesZip_eq (hfails : ¬ Fails q t) (buildTxt : Str → List UInt8)
    (uc386Version : Str) :
    buildSourcesZip q buildTxt t uc386Version =
      .ok (⟨str "BUILD.txt", buildTxt uc386Version⟩ :: t.tracked.flatMap (fromLine q t)) := by
  obtain ⟨hgit, hstored⟩ := not_or.mp hfails
  have hnone : ∀ rel ∈ listed q t, ∀ e, archived t rel ≠ some (.error e) :=
    fun rel hrel e he => hstored ⟨rel, hrel, e, he⟩
  rw [buildSourcesZip_of_git (not_not.mp hgit), addTracked_ok hnone, listed,
    List.filterMap_flatMap]
  rfl

theorem arcname_of_zipWrite {rel : Str} {contents : Except Exn (List UInt8)} {m : Member}
    (h : zipWrite rel contents = .ok m) : arcname rel = .ok m.name ∧ contents = .ok m.data := by
  rw [zipWrite] at h
  cases hname : arcname rel with
  | error e =>
      rw [hname] at h
      cases h
  | ok name =>
      rw [hname] at h
      cases contents with
      | error e => cases h
      | ok data =>
          cases h
          exact ⟨rfl, rfl⟩

theorem archived_ok {rel : Str} {m : Member} (h : archived t rel = some (.ok m)) :
    arcname rel = .ok m.name ∧ t.file rel = some (.ok m.data) := by
  rw [archived] at h
  split at h
  · cases h
  · obtain ⟨contents, hfile, hwrite⟩ := Option.map_eq_some_iff.mp h
    obtain ⟨hname, hdata⟩ := arcname_of_zipWrite hwrite
    exact ⟨hname, by rw [hfile, hdata]⟩

theorem not_rigs {e : Entry} (h : e.required = true) : ¬ str "rigs/" <+: e.path :=
  (of_decide_eq_true h).2

theorem fromLine_required (hfails : ¬ Fails q t) {e : Entry} (hmem : e ∈ t.tracked)
    (hrequired : e.required = true) (hplain : q.Plain e.path) (hfile : t.file e.path ≠ none) :
    ∃ data, memberOf t e = some ⟨e.path, data⟩ ∧ fromLine q t e = [⟨e.path, data⟩] := by
  have hwords := hplain.words e.proper.ne_nil
  obtain ⟨contents, hcontents⟩ := Option.ne_none_iff_exists'.mp hfile
  have harchived : archived t e.path = some (zipWrite e.path contents) := by
    rw [archived, if_neg (not_rigs hrequired), hcontents]
    rfl
  cases contents with
  | error err =>
      refine absurd (.inr ⟨e.path, List.mem_flatMap.mpr ⟨e, hmem, ?_⟩, err, ?_⟩) hfails
      · rw [hwords]
        exact List.mem_singleton_self e.path
      · rw [harchived, zipWrite, arcname_proper e.proper]
        rfl
  | ok data =>
      refine ⟨data, by rw [memberOf, hcontents], ?_⟩
      have hstored : fetched t e.path = some ⟨e.path, data⟩ := by
        rw [fetched_eq_some, harchived, zipWrite, arcname_proper e.proper]
        rfl
      rw [fromLine, hwords, List.filterMap_cons, hstored]
      rfl

theorem fromLine_eq_nil (hfails : ¬ Fails q t) {e : Entry} (hmem : e ∈ t.tracked) :
    fromLine q t e = [] ↔
      ∀ rel ∈ wordsOf isSpace (q.line e.path), str "rigs/" <+: rel ∨ t.file rel = none := by
  rw [fromLine, List.filterMap_eq_nil_iff]
  refine forall₂_congr fun rel hrel => ?_
  rw [← archived_eq_none]
  constructor
  · intro hnone
    cases hstored : archived t rel with
    | none => rfl
    | some stored =>
        cases stored with
        | ok m =>
            rw [fetched_eq_some.mpr hstored] at hnone
            cases hnone
        | error err =>
            exact absurd (.inr ⟨rel, List.mem_flatMap.mpr ⟨e, hmem, hrel⟩, err, hstored⟩) hfails
  · intro hnone
    rw [fetched, hnone]
    rfl

/-- Lines that are read right give the tracked files that are to be stored, in their order. -/
theorem flatMap_fromLine {entries : List Entry}
    (h : ∀ e ∈ entries, if e.required then
        ∃ data, memberOf t e = some ⟨e.path, data⟩ ∧ fromLine q t e = [⟨e.path, data⟩]
      else fromLine q t e = []) :
    (entries.flatMap (fromLine q t)).map some =
        (entries.filter Entry.required).map (memberOf t) ∧
      (entries.flatMap (fromLine q t)).map Member.name =
        (entries.filter Entry.required).map Entry.path := by
  induction entries with
  | nil => exact ⟨rfl, rfl⟩
  | cons e entries ih =>
      obtain ⟨he, hentries⟩ := List.forall_mem_cons.mp h
      obtain ⟨hmembers, hnames⟩ := ih hentries
      rw [List.flatMap_cons, List.map_append, List.map_append, hmembers, hnames]
      cases hrequired : e.required with
      | true =>
          rw [if_pos hrequired] at he
          obtain ⟨data, hmember, hline⟩ := he
          rw [List.filter_cons_of_pos hrequired, hline, List.map_cons, List.map_cons, hmember]
          exact ⟨rfl, rfl⟩
      | false =>
          rw [if_neg (by rw [hrequired]; exact Bool.false_ne_true)] at he
          rw [List.filter_cons_of_neg (by rw [hrequired]; exact Bool.false_ne_true), he]
          exact ⟨rfl, rfl⟩

/-- Where the files that are to be stored fill the archive, no other line adds to it. -/
theorem length_flatMap_fromLine {entries : List Entry}
    (h : ∀ e ∈ entries, e.required = true → (fromLine q t e).length = 1) :
    (entries.flatMap (fromLine q t)).length =
      (entries.filter Entry.required).length +
        ((entries.filter fun e => !e.required).flatMap (fromLine q t)).length := by
  induction entries with
  | nil => rfl
  | cons e entries ih =>
      obtain ⟨he, hentries⟩ := List.forall_mem_cons.mp h
      rw [List.flatMap_cons, List.length_append, ih hentries]
      cases hrequired : e.required with
      | true =>
          rw [List.filter_cons_of_pos hrequired, List.filter_cons_of_neg (by simp [hrequired]),
            he hrequired, List.length_cons]
          omega
      | false =>
          rw [List.filter_cons_of_neg (by simp [hrequired]),
            List.filter_cons_of_pos (by simp [hrequired]), List.flatMap_cons, List.length_append]
          omega

section complete

variable {buildTxt : Str → List UInt8} {uc386Version : Str}

theorem Complete.plain (hfails : ¬ Fails q t) (h : Complete q buildTxt t uc386Version)
    {e : Entry} (he : e ∈ t.tracked) (hrequired : e.required = true) :
    q.Plain e.path ∧ t.file e.path ≠ none := by
  obtain ⟨-, -, hhandled⟩ := h _ (buildSourcesZip_eq hfails buildTxt uc386Version)
  obtain ⟨rel, hrel, m, hstored, hname⟩ := hhandled e he hrequired
  obtain ⟨harcname, hfile⟩ := archived_ok hstored
  rw [hname] at harcname
  have hplain := Quoting.plain_of_arcname e.proper hrel harcname
  rw [hplain.words e.proper.ne_nil, List.mem_singleton] at hrel
  rw [hrel] at hfile
  exact ⟨hplain, by rw [hfile]; exact Option.some_ne_none _⟩

theorem Complete.fromLine_required (hfails : ¬ Fails q t)
    (h : Complete q buildTxt t uc386Version) {e : Entry} (he : e ∈ t.tracked)
    (hrequired : e.required = true) : ∃ data, fromLine q t e = [⟨e.path, data⟩] := by
  obtain ⟨hplain, hfile⟩ := h.plain hfails he hrequired
  obtain ⟨data, -, hdata⟩ := Release.fromLine_required hfails he hrequired hplain hfile
  exact ⟨data, hdata⟩

/-- The files that are to be stored fill a complete archive, so the other lines add nothing. -/
theorem Complete.fromLine_eq_nil (hfails : ¬ Fails q t)
    (h : Complete q buildTxt t uc386Version) {e : Entry} (he : e ∈ t.tracked)
    (hrequired : ¬ e.required = true) : fromLine q t e = [] := by
  obtain ⟨hperm, -, -⟩ := h _ (buildSourcesZip_eq hfails buildTxt uc386Version)
  have hone : ∀ e ∈ t.tracked, e.required = true → (fromLine q t e).length = 1 := by
    intro e he hrequired
    obtain ⟨data, hdata⟩ := h.fromLine_required hfails he hrequired
    exact congrArg List.length hdata
  have hcount := length_flatMap_fromLine hone
  have hlen := hperm.length_eq
  simp only [List.map_cons, List.length_cons, List.length_map] at hlen
  have hothers : (t.tracked.filter fun e => !e.required).flatMap (fromLine q t) = [] :=
    List.eq_nil_of_length_eq_zero (by omega)
  exact List.flatMap_eq_nil_iff.mp hothers e (List.mem_filter.mpr ⟨he, by simpa using hrequired⟩)

theorem Complete.ne_buildTxt (hfails : ¬ Fails q t) (h : Complete q buildTxt t uc386Version)
    {e : Entry} (he : e ∈ t.tracked) (hrequired : e.required = true) :
    e.path ≠ str "BUILD.txt" := by
  obtain ⟨-, hnodup, -⟩ := h _ (buildSourcesZip_eq hfails buildTxt uc386Version)
  obtain ⟨data, hdata⟩ := h.fromLine_required hfails he hrequired
  have hmem : ⟨e.path, data⟩ ∈ t.tracked.flatMap (fromLine q t) :=
    List.mem_flatMap.mpr ⟨e, he, by rw [hdata]; exact List.mem_singleton_self _⟩
  intro hbuild
  exact (List.nodup_cons.mp hnodup).1 (List.mem_map.mpr ⟨_, hmem, hbuild⟩)

theorem Complete.readRight (hfails : ¬ Fails q t) (h : Complete q buildTxt t uc386Version) :
    ∀ e ∈ t.tracked, ReadRight q t e := by
  intro e he
  rw [ReadRight]
  split
  · next hrequired =>
    obtain ⟨hplain, hfile⟩ := h.plain hfails he hrequired
    exact ⟨hplain, hfile, h.ne_buildTxt hfails he hrequired⟩
  · next hrequired =>
    exact (Release.fromLine_eq_nil hfails he).mp (h.fromLine_eq_nil hfails he hrequired)

end complete

theorem ReadRight.fromLine (hfails : ¬ Fails q t) {e : Entry} (he : e ∈ t.tracked)
    (h : ReadRight q t e) :
    if e.required then
      ∃ data, memberOf t e = some ⟨e.path, data⟩ ∧ fromLine q t e = [⟨e.path, data⟩]
    else fromLine q t e = [] := by
  rw [ReadRight] at h
  split at h
  · next hrequired =>
    rw [if_pos hrequired]
    exact fromLine_required hfails he hrequired h.1 h.2.1
  · next hrequired =>
    rw [if_neg hrequired]
    exact (fromLine_eq_nil hfails he).mpr h

theorem complete_of_readRight (hfails : ¬ Fails q t) (h : ∀ e ∈ t.tracked, ReadRight q t e)
    (buildTxt : Str → List UInt8) (uc386Version : Str) :
    Complete q buildTxt t uc386Version := by
  have hlines := fun e he => (h e he).fromLine hfails he
  obtain ⟨hmembers, hnames⟩ := flatMap_fromLine hlines
  intro z hz
  rw [buildSourcesZip_eq hfails] at hz
  cases hz
  refine ⟨?_, ?_, fun e he hrequired => ?_⟩
  · rw [List.map_cons, hmembers]
  · rw [List.map_cons, hnames, List.nodup_cons]
    refine ⟨fun hbuild => ?_, t.nodup.sublist (List.filter_sublist.map Entry.path)⟩
    obtain ⟨e, he, hpath⟩ := List.mem_map.mp hbuild
    obtain ⟨htracked, hrequired⟩ := List.mem_filter.mp he
    have hright := h e htracked
    rw [ReadRight, if_pos hrequired] at hright
    exact hright.2.2 hpath
  · have hline := hlines e he
    rw [if_pos hrequired] at hline
    obtain ⟨data, -, hdata⟩ := hline
    have hmem : (⟨e.path, data⟩ : Member) ∈ fromLine q t e := by
      rw [hdata]
      exact List.mem_singleton_self _
    obtain ⟨rel, hrel, hstored⟩ := List.mem_filterMap.mp hmem
    exact ⟨rel, hrel, ⟨e.path, data⟩, fetched_eq_some.mp hstored, rfl⟩

/-- An archive is complete exactly when making it fails, or every line of the listing is read
right. -/
theorem buildSourcesZip_complete_iff (q : Quoting) (buildTxt : Str → List UInt8) (t : Tree)
    (uc386Version : Str) :
    Complete q buildTxt t uc386Version ↔
      Fails q t ∨ ∀ e ∈ t.tracked, ReadRight q t e := by
  by_cases hfails : Fails q t
  · refine iff_of_true (fun z hz => ?_) (.inl hfails)
    obtain ⟨e, he⟩ := buildSourcesZip_of_fails hfails buildTxt uc386Version
    rw [he] at hz
    cases hz
  · rw [or_iff_right hfails]
    exact ⟨Complete.readRight hfails, fun h => complete_of_readRight hfails h _ _⟩

end

/-! ## A path with a blank -/

def escapeLetters : List (CodePoint × Str) :=
  [(0x07, str "a"), (0x08, str "b"), (0x09, str "t"), (0x0A, str "n"), (0x0B, str "v"),
    (0x0C, str "f"), (0x0D, str "r"), (quoteMark, str "\""), (backslash, str "\\")]

def octalDigit (n : Nat) : CodePoint := Fin.ofNat 0x110000 (0x30 + n % 8)

theorem octalDigit_plain (n : Nat) : isSpace (octalDigit n) = false ∧ octalDigit n ≠ slash := by
  have hall : ∀ d < 8, isSpace (octalDigit d) = false ∧ octalDigit d ≠ slash := by decide
  have hmod : octalDigit n = octalDigit (n % 8) := by rw [octalDigit, octalDigit, Nat.mod_mod]
  rw [hmod]
  exact hall (n % 8) (Nat.mod_lt n (by omega))

def quotingOff : Quoting where
  unusual c := c.val < 0x20 || c = 0x7F || c = quoteMark || c = backslash
  escape c := backslash ::
    (escapeLetters.lookup c).getD
      [octalDigit (c.val / 64), octalDigit (c.val / 8), octalDigit c.val]
  slash_usual := by decide
  escape_backslash c _ := by
    refine ⟨_, rfl, fun d hd => ?_⟩
    cases hletter : escapeLetters.lookup c with
    | some letter =>
        rw [hletter] at hd
        have hall :
            (escapeLetters.all fun p => p.2.all fun d => !isSpace d && d ≠ slash) = true := by
          decide
        obtain ⟨front, back, hsplit, -⟩ := List.lookup_eq_some_iff.mp hletter
        have hmem : (c, letter) ∈ escapeLetters := by
          rw [hsplit]
          exact List.mem_append_right front List.mem_cons_self
        simpa using List.all_eq_true.mp (List.all_eq_true.mp hall _ hmem) d hd
    | none =>
        rw [hletter] at hd
        simp only [Option.getD_none, List.mem_cons, List.not_mem_nil, or_false] at hd
        rcases hd with rfl | rfl | rfl <;> exact octalDigit_plain _

instance decidableProper (path : Str) : Decidable (Proper path) :=
  inferInstanceAs (Decidable (∀ comp ∈ path.splitOn slash, _))

def blankTree : Tree where
  tracked := [⟨str "docs/a b.md", .regular, by decide⟩]
  nodup := List.nodup_singleton _
  gitError := none
  file rel := if rel = str "docs/a b.md" then some (.ok [0x68, 0x69]) else none

/-- The archive is made without the file. -/
theorem buildSourcesZip_skips_blank :
    buildSourcesZip quotingOff (fun _ => []) blankTree (str "unknown") =
        .ok [⟨str "BUILD.txt", []⟩] ∧
      ¬ Complete quotingOff (fun _ => []) blankTree (str "unknown") := by
  have hbuilt : buildSourcesZip quotingOff (fun _ => []) blankTree (str "unknown") =
      .ok [⟨str "BUILD.txt", []⟩] := by decide
  refine ⟨hbuilt, fun h => ?_⟩
  have hlen := (h _ hbuilt).1.length_eq
  exact absurd hlen (by decide)

end FreedosMicroPython.Release
