import FreedosMicroPython.OsPath
import FreedosMicroPython.Runtime
import Mathlib.Data.List.Chain
/-!
# Normal paths

`mod_path_abspath` of `port/path_uc386dos.c` has a second copy of the loop of
`mod_path_normpath`, which starts behind the current directory. `collapse` is what either
copy appends; the nonempty components of a path are what it keeps.
-/

namespace FreedosMicroPython.OsPath

open FreedosMicroPython.Lib.Scan FreedosMicroPython.Runtime

/-- `mod_path_abspath`; `getcwd` is what the library call stores, if it does not fail. -/
def modPathAbspath (getcwd : Option (List UInt8)) (p : List UInt8) :
    Except MpErrno (List UInt8) := do
  let vstr ←
    if absolute p then .ok []
    else
      match getcwd with
      | none => .error .eio
      | some cwd =>
          .ok (if cwd ≠ [] ∧ ¬ cwd.getLast?.any isSep then cwd ++ ['\\'.toUInt8] else cwd)
  return (p.foldl normStep (vstr, vstr.getLast?.any isSep)).1

/-! ## What the loop appends -/

/-- The bytes of a path behind a separator, or behind something else. -/
def collapse : Bool → List UInt8 → List UInt8
  | _, [] => []
  | prevSep, c :: cs =>
      if isSep c then
        if prevSep then collapse true cs else '\\'.toUInt8 :: collapse true cs
      else c :: collapse false cs

theorem isSep_backslash : isSep '\\'.toUInt8 = true := by decide

theorem foldl_normStep (p vstr : List UInt8) (prevSep : Bool) :
    (p.foldl normStep (vstr, prevSep)).1 = vstr ++ collapse prevSep p := by
  induction p generalizing vstr prevSep with
  | nil => rw [collapse, List.append_nil]; rfl
  | cons c cs ih =>
      rw [List.foldl_cons, normStep, collapse]
      cases isSep c with
      | false =>
          rw [if_neg Bool.false_ne_true, if_neg Bool.false_ne_true, ih, List.append_assoc]
          rfl
      | true =>
          rw [if_pos rfl, if_pos rfl]
          cases prevSep with
          | false =>
              rw [if_neg Bool.false_ne_true, if_neg Bool.false_ne_true, ih, List.append_assoc]
              rfl
          | true => rw [if_pos rfl, if_pos rfl, ih]

theorem foldl_normStep_snd {p : List UInt8} (hp : p ≠ []) (st : List UInt8 × Bool) :
    (p.foldl normStep st).2 = p.getLast?.any isSep := by
  obtain ⟨front, c, rfl⟩ := List.eq_nil_or_concat' p |>.resolve_left hp
  rw [List.foldl_append, List.foldl_cons, List.foldl_nil, normStep_snd, List.getLast?_append]
  rfl

theorem collapse_collapse (prevSep : Bool) (p : List UInt8) :
    collapse prevSep (collapse prevSep p) = collapse prevSep p := by
  fun_induction collapse prevSep p with
  | case1 => rw [collapse]
  | case2 c cs hc ih => exact ih
  | case3 prevSep c cs hc hprev ih =>
      rw [collapse, if_pos isSep_backslash, if_neg hprev, ih]
  | case4 prevSep c cs hc ih => rw [collapse, if_neg hc, ih]

theorem collapse_eq_nil {p : List UInt8} : collapse false p = [] ↔ p = [] := by
  constructor
  · intro h
    cases p with
    | nil => rfl
    | cons c cs =>
        rw [collapse] at h
        split at h <;> cases h
  · rintro rfl
    rfl

theorem modPathNormpath_eq {p : List UInt8} (hp : p ≠ []) :
    modPathNormpath p = collapse false p := by
  rw [modPathNormpath, foldl_normStep, List.nil_append, if_neg (mt collapse_eq_nil.mp hp)]

theorem modPathNormpath_ne_nil (p : List UInt8) : modPathNormpath p ≠ [] := by
  by_cases hp : p = []
  · rw [hp]; exact List.cons_ne_nil _ _
  · rw [modPathNormpath_eq hp]; exact mt collapse_eq_nil.mp hp

/-! ## The components -/

/-- The parts of a path between its separators, the empty ones left out. -/
def components (p : List UInt8) : List (List UInt8) :=
  (p.splitOnP isSep).filter (· ≠ [])

theorem components_sep {c : UInt8} (hc : isSep c = true) (cs : List UInt8) :
    components (c :: cs) = components cs := by
  rw [components, List.splitOnP_cons_eq_if_modifyHead, if_pos hc]
  rfl

/-- The first part ends at the same place, and what follows it has the same components. Behind
a separator there is no first part to keep. -/
theorem splitOnP_collapse (p : List UInt8) :
    (∃ front rest rest', (collapse false p).splitOnP isSep = front :: rest ∧
      p.splitOnP isSep = front :: rest' ∧
      rest.filter (· ≠ []) = rest'.filter (· ≠ [])) ∧
    components (collapse true p) = components p := by
  induction p with
  | nil => exact ⟨⟨[], [], [], rfl, rfl, rfl⟩, rfl⟩
  | cons c cs ih =>
      obtain ⟨⟨front, rest, rest', hcollapse, hcs, hrest⟩, hbehind⟩ := ih
      by_cases hc : isSep c = true
      · refine ⟨⟨[], (collapse true cs).splitOnP isSep, cs.splitOnP isSep, ?_, ?_, hbehind⟩, ?_⟩
        · rw [collapse, if_pos hc, if_neg Bool.false_ne_true,
            List.splitOnP_cons_eq_if_modifyHead, if_pos isSep_backslash]
        · rw [List.splitOnP_cons_eq_if_modifyHead, if_pos hc]
        · rw [collapse, if_pos hc, if_pos rfl, hbehind, components_sep hc]
      · have hkept : (c :: collapse false cs).splitOnP isSep = (c :: front) :: rest := by
          rw [List.splitOnP_cons_eq_if_modifyHead, if_neg hc, hcollapse, List.modifyHead_cons]
        have hsplit : (c :: cs).splitOnP isSep = (c :: front) :: rest' := by
          rw [List.splitOnP_cons_eq_if_modifyHead, if_neg hc, hcs, List.modifyHead_cons]
        refine ⟨⟨c :: front, rest, rest', ?_, hsplit, hrest⟩, ?_⟩
        · rw [collapse, if_neg hc, hkept]
        · rw [collapse, if_neg hc, components, components, hkept, hsplit, List.filter_cons,
            List.filter_cons, hrest]

theorem components_collapse (p : List UInt8) : components (collapse false p) = components p := by
  obtain ⟨⟨front, rest, rest', hcollapse, hp, hrest⟩, -⟩ := splitOnP_collapse p
  rw [components, components, hcollapse, hp, List.filter_cons, List.filter_cons, hrest]

/-! ## Separators -/

def beginsSep (p : List UInt8) : Bool := p.head?.any isSep

def endsSep (p : List UInt8) : Bool := p.getLast?.any isSep

theorem beginsSep_collapse (p : List UInt8) : beginsSep (collapse false p) = beginsSep p := by
  cases p with
  | nil => rfl
  | cons c cs =>
      rw [collapse]
      split
      · next hc => exact isSep_backslash.trans hc.symm
      · rfl

/-- `prev_sep` says whether the string so far ends with a separator. -/
theorem foldl_normStep_ends (p : List UInt8) {st : List UInt8 × Bool}
    (hst : st.2 = endsSep st.1) :
    (p.foldl normStep st).2 = endsSep (p.foldl normStep st).1 := by
  induction p generalizing st with
  | nil => exact hst
  | cons c cs ih =>
      refine ih ?_
      have hlast (d : UInt8) : endsSep (st.1 ++ [d]) = isSep d := by
        rw [endsSep, List.getLast?_concat]; rfl
      rw [normStep]
      split
      · split
        · exact hst
        · exact ((hlast _).trans isSep_backslash).symm
      · next hc => exact ((hlast c).trans (Bool.eq_false_iff.mpr hc)).symm

theorem endsSep_collapse (p : List UInt8) : endsSep (collapse false p) = endsSep p := by
  by_cases hp : p = []
  · rw [hp]; rfl
  · have hends : (p.foldl normStep ([], false)).2 = endsSep (p.foldl normStep ([], false)).1 :=
      foldl_normStep_ends p rfl
    rw [foldl_normStep_snd hp, foldl_normStep, List.nil_append] at hends
    exact hends.symm

theorem slash_not_mem_collapse (prevSep : Bool) (p : List UInt8) :
    '/'.toUInt8 ∉ collapse prevSep p := by
  fun_induction collapse prevSep p with
  | case1 => exact List.not_mem_nil
  | case2 c cs hc ih => exact ih
  | case3 prevSep c cs hc hprev ih =>
      rw [List.mem_cons, not_or]
      exact ⟨by decide, ih⟩
  | case4 prevSep c cs hc ih =>
      rw [List.mem_cons, not_or]
      exact ⟨fun heq => hc (heq ▸ by decide), ih⟩

def NoDoubleSep (p : List UInt8) : Prop :=
  List.IsChain (fun a b => ¬ (isSep a = true ∧ isSep b = true)) p

theorem beginsSep_collapse_true (p : List UInt8) : beginsSep (collapse true p) = false := by
  induction p with
  | nil => rfl
  | cons c cs ih =>
      rw [collapse]
      split
      · rw [if_pos rfl, ih]
      · next hc => exact Bool.eq_false_iff.mpr hc

theorem noDoubleSep_collapse (prevSep : Bool) (p : List UInt8) :
    NoDoubleSep (collapse prevSep p) := by
  fun_induction collapse prevSep p with
  | case1 => exact List.isChain_nil
  | case2 c cs hc ih => exact ih
  | case3 prevSep c cs hc hprev ih =>
      refine List.isChain_cons.mpr ⟨fun d hd hboth => ?_, ih⟩
      have hnone := beginsSep_collapse_true cs
      rw [beginsSep, hd] at hnone
      exact Bool.false_ne_true (hnone.symm.trans hboth.2)
  | case4 prevSep c cs hc ih =>
      exact List.isChain_cons.mpr ⟨fun d hd hboth => hc hboth.1, ih⟩

/-! ## Absolute paths -/

theorem absolute_append {a : List UInt8} (ha : absolute a = true) (b : List UInt8) :
    absolute (a ++ b) = true := by
  match a with
  | [] => cases ha
  | [x] =>
      have hx : isSep x = true := by simpa [absolute] using ha
      simp [absolute, hx]
  | x :: y :: z => exact ha

theorem head_collapse_colon (p : List UInt8) :
    (collapse false p).head? = some ':'.toUInt8 ↔ p.head? = some ':'.toUInt8 := by
  cases p with
  | nil => rfl
  | cons c cs =>
      rw [collapse]
      split
      · next hc =>
          have hcolon : isSep ':'.toUInt8 = false := by decide
          constructor
          · intro h
            exact absurd (Option.some.inj h) (by decide)
          · intro h
            rw [Option.some.inj h, hcolon] at hc
            cases hc
      · rfl

theorem absolute_collapse (p : List UInt8) : absolute (collapse false p) = absolute p := by
  cases p with
  | nil => rfl
  | cons c cs =>
      rw [collapse]
      split
      · next hc =>
          have hsep (d : UInt8) (hd : isSep d = true) (ds : List UInt8) :
              absolute (d :: ds) = true := by
            rw [absolute, List.getElem?_cons_zero, Option.any_some, hd, Bool.true_or]
          exact (hsep _ isSep_backslash _).trans (hsep c hc cs).symm
      · rw [absolute, absolute, List.getElem?_cons_zero, List.getElem?_cons_zero,
          List.getElem?_cons_succ, List.getElem?_cons_succ, ← List.head?_eq_getElem?,
          ← List.head?_eq_getElem?, decide_eq_decide.mpr (head_collapse_colon cs)]

/-! ## The two copies of the loop -/

theorem modPathAbspath_absolute {p : List UInt8} (hp : absolute p = true)
    (getcwd : Option (List UInt8)) : modPathAbspath getcwd p = .ok (collapse false p) := by
  rw [modPathAbspath.eq_def, if_pos hp]
  exact congrArg Except.ok (foldl_normStep p [] false)

theorem modPathAbspath_relative {p cwd : List UInt8} (hp : absolute p = false) (hne : p ≠ []) :
    modPathAbspath (some cwd) p =
      .ok (cwd ++ gap cwd p ++ collapse (endsSep (cwd ++ gap cwd p)) p) := by
  rw [modPathAbspath.eq_def, if_neg (Bool.eq_false_iff.mp hp)]
  refine congrArg Except.ok ?_
  rw [← append_gap hne cwd, foldl_normStep]
  rfl

theorem collapse_append (a b : List UInt8) :
    collapse false (a ++ b) = collapse false a ++ collapse (endsSep a) b := by
  have hends : (a.foldl normStep ([], false)).2 = endsSep a := by
    by_cases ha : a = []
    · rw [ha]; rfl
    · exact foldl_normStep_snd ha _
  calc collapse false (a ++ b)
      = ((a ++ b).foldl normStep ([], false)).1 := (foldl_normStep (a ++ b) [] false).symm
    _ = (b.foldl normStep ((a.foldl normStep ([], false)).1, endsSep a)).1 := by
        rw [List.foldl_append, ← hends]
    _ = collapse false a ++ collapse (endsSep a) b := by
        rw [foldl_normStep, foldl_normStep, List.nil_append]

/-- A directory that is normal is copied by the loop, and so is the separator behind it. -/
theorem collapse_glue {cwd : List UInt8} (hcwd : collapse false cwd = cwd) (p : List UInt8) :
    collapse false (glue cwd p) =
      cwd ++ gap cwd p ++ collapse (endsSep (cwd ++ gap cwd p)) p := by
  have hgap : collapse (endsSep cwd) (gap cwd p) = gap cwd p := by
    rw [gap]
    split
    · rfl
    · next h =>
        have hlast : endsSep cwd = false :=
          Bool.eq_false_iff.mpr fun hlast => h (.inr (.inr hlast))
        rw [hlast]
        rfl
  rw [glue, collapse_append, collapse_append, hcwd, hgap]

theorem modPathAbspath_eq {p cwd : List UInt8} (hp : p ≠ []) (habs : absolute cwd = true)
    (hcwd : modPathNormpath cwd = cwd) :
    modPathAbspath (some cwd) p = .ok (modPathNormpath (modPathJoin [cwd, p])) ∧
      absolute (modPathNormpath (modPathJoin [cwd, p])) = true := by
  have hne : cwd ≠ [] := by
    rintro rfl
    cases habs
  rw [modPathNormpath_eq hne] at hcwd
  rw [modPathJoin_pair, joinPart_eq]
  by_cases hpabs : absolute p = true
  · rw [if_pos hpabs, modPathNormpath_eq hp, absolute_collapse]
    exact ⟨modPathAbspath_absolute hpabs _, hpabs⟩
  · have hglue : glue cwd p ≠ [] := fun h => hne (glue_eq_nil.mp h).1
    rw [if_neg hpabs, modPathNormpath_eq hglue, absolute_collapse]
    constructor
    · rw [modPathAbspath_relative (Bool.eq_false_iff.mpr hpabs) hp, collapse_glue hcwd]
    · rw [glue, List.append_assoc]
      exact absolute_append habs _

theorem modPathNormpath_normpath (p : List UInt8) :
    modPathNormpath (modPathNormpath p) = modPathNormpath p := by
  by_cases hp : p = []
  · rw [hp]; rfl
  · rw [modPathNormpath_eq (modPathNormpath_ne_nil p), modPathNormpath_eq hp, collapse_collapse]

/-- A normal path is its own `normpath`, with the same components and the same ends; and
`abspath` is `normpath` behind the current directory. -/
theorem modPathNormpath_abspath :
    modPathNormpath [] = str "." ∧
    (∀ p,
      modPathNormpath (modPathNormpath p) = modPathNormpath p ∧
      (p ≠ [] → components (modPathNormpath p) = components p) ∧
      beginsSep (modPathNormpath p) = beginsSep p ∧
      endsSep (modPathNormpath p) = endsSep p ∧
      '/'.toUInt8 ∉ modPathNormpath p ∧
      NoDoubleSep (modPathNormpath p)) ∧
    ∀ p cwd, p ≠ [] → absolute cwd = true → modPathNormpath cwd = cwd →
      ∃ q, modPathAbspath (some cwd) p = .ok q ∧
        q = modPathNormpath (modPathJoin [cwd, p]) ∧
        modPathAbspath (some cwd) q = .ok q := by
  refine ⟨rfl, fun p => ?_, fun p cwd hp habs hcwd => ?_⟩
  · refine ⟨modPathNormpath_normpath p, fun hp => ?_, ?_⟩
    · rw [modPathNormpath_eq hp, components_collapse]
    · by_cases hp : p = []
      · rw [hp]
        exact ⟨rfl, rfl, by decide, List.isChain_singleton _⟩
      · rw [modPathNormpath_eq hp]
        exact ⟨beginsSep_collapse p, endsSep_collapse p, slash_not_mem_collapse false p,
          noDoubleSep_collapse false p⟩
  · obtain ⟨hq, hqabs⟩ := modPathAbspath_eq hp habs hcwd
    refine ⟨_, hq, rfl, ?_⟩
    rw [modPathAbspath_absolute hqabs, ← modPathNormpath_eq (modPathNormpath_ne_nil _),
      modPathNormpath_normpath]

theorem modPathNormpath_abspath_mixed :
    ∃ q, modPathAbspath (some (str "C:\\dos")) (str "a//b/") = .ok q ∧
      q = modPathNormpath (modPathJoin [str "C:\\dos", str "a//b/"]) ∧
      modPathAbspath (some (str "C:\\dos")) q = .ok q :=
  modPathNormpath_abspath.2.2 _ _ (by decide) (by decide) (by decide)

end FreedosMicroPython.OsPath
