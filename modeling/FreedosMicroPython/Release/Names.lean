import FreedosMicroPython.Lib.Regex
import FreedosMicroPython.Release.Text
/-!
# The names in the package

`check_83` of `release/mkfdpkg.py`: every component of a path has to match a regular expression. Its
last anchor also matches in front of a newline.
-/

namespace FreedosMicroPython.Release

open FreedosMicroPython.Lib.Regex

/-! ## The check -/

def isAlnum (c : CodePoint) : Bool :=
  (0x41 ≤ c && c ≤ 0x5A) || (0x61 ≤ c && c ≤ 0x7A) || (0x30 ≤ c && c ≤ 0x39)

def nameChar (c : CodePoint) : Bool := isAlnum c || (str "_~!@#$%^&()-\x7b\x7d'").contains c

def extChar (c : CodePoint) : Bool := isAlnum c || (str "_~!-").contains c

def dot : CodePoint := 0x2E

def slash : CodePoint := 0x2F

def re83 : Expr CodePoint :=
  .seq .start (.seq (.rep 1 8 (.one nameChar))
    (.seq (.rep 0 1 (.seq (.one (· = dot)) (.rep 1 3 (.one extChar)))) .stop))

def checkParts (path : Str) : List Str → Except Exn Unit
  | [] => .ok ()
  | part :: parts =>
      if part = [] then checkParts path parts
      else if re83.matches lf part then checkParts path parts
      else .error (.systemExit "mkfdpkg: not an 8.3 name: {part!r} (in {path!r})" [part, path])

def check83 (path : Str) : Except Exn Unit := checkParts path (path.splitOn slash)

/-! ## Names -/

def Word (p : CodePoint → Bool) (lo hi : Nat) (w : Str) : Prop :=
  (lo ≤ w.length ∧ w.length ≤ hi) ∧ ∀ c ∈ w, p c = true

/-- One to eight characters, and a dot with one to three more or nothing. -/
def Name83 (part : Str) : Prop :=
  ∃ base, Word nameChar 1 8 base ∧
    (part = base ∨ ∃ ext, Word extChar 1 3 ext ∧ part = base ++ dot :: ext)

def NewlineName (part : Str) : Prop := ∃ name, Name83 name ∧ part = name ++ [lf]

/-- Every component that is not empty is an 8.3 name. -/
def Fits83 (path : Str) : Prop := ∀ part ∈ path.splitOn slash, part ≠ [] → Name83 part

theorem mem_ends_ext {x y : Pos CodePoint} :
    y ∈ ends lf (.rep 0 1 (.seq (.one (· = dot)) (.rep 1 3 (.one extChar)))) x ↔
      y = x ∨ ∃ ext s, Word extChar 1 3 ext ∧ x.2 = dot :: ext ++ s ∧
        y = (x.1 + 1 + ext.length, s) := by
  rw [mem_ends_opt, mem_ends_seq]
  apply or_congr_right
  constructor
  · rintro ⟨z, hz, hy⟩
    obtain ⟨c, t, hx, hc, rfl⟩ := mem_ends_one.mp hz
    obtain ⟨ext, s, ht, hlen, hext, rfl⟩ := mem_ends_rep_one.mp hy
    refine ⟨ext, s, ⟨hlen, hext⟩, ?_, rfl⟩
    rw [hx, of_decide_eq_true hc]
    exact congrArg (dot :: ·) ht
  · rintro ⟨ext, s, ⟨hlen, hext⟩, hx, rfl⟩
    exact ⟨(x.1 + 1, ext ++ s), mem_ends_one.mpr ⟨dot, ext ++ s, hx, by decide, rfl⟩,
      mem_ends_rep_one.mpr ⟨ext, s, rfl, hlen, hext, rfl⟩⟩

/-- What the expression matches is a name and what the last anchor lets stand behind it. -/
theorem matches_re83_iff (part : Str) :
    re83.matches lf part = true ↔
      ∃ name tail, Name83 name ∧ (tail = [] ∨ tail = [lf]) ∧ part = name ++ tail := by
  rw [matches_iff]
  constructor
  · rintro ⟨y, hy⟩
    obtain ⟨x, hx, hy⟩ := mem_ends_seq.mp hy
    obtain ⟨-, rfl⟩ := mem_ends_start.mp hx
    obtain ⟨x, hx, hy⟩ := mem_ends_seq.mp hy
    obtain ⟨base, s, hpart, hlen, hbase, rfl⟩ := mem_ends_rep_one.mp hx
    obtain ⟨x, hx, hy⟩ := mem_ends_seq.mp hy
    rcases mem_ends_ext.mp hx with rfl | ⟨ext, tail, hext, hs, rfl⟩
    · exact ⟨base, s, ⟨base, ⟨hlen, hbase⟩, .inl rfl⟩, (mem_ends_stop.mp hy).1, hpart⟩
    · refine ⟨base ++ dot :: ext, tail, ⟨base, ⟨hlen, hbase⟩, .inr ⟨ext, hext, rfl⟩⟩,
        (mem_ends_stop.mp hy).1, ?_⟩
      rw [List.append_assoc]
      exact hpart.trans (congrArg (base ++ ·) hs)
  · rintro ⟨name, tail, ⟨base, hbase, hname⟩, htail, rfl⟩
    -- The position behind the base and the one behind the name.
    obtain ⟨s, x, hs, hx, hend⟩ : ∃ s x, name ++ tail = base ++ s ∧
        x ∈ ends lf (.rep 0 1 (.seq (.one (· = dot)) (.rep 1 3 (.one extChar))))
          (0 + base.length, s) ∧ x.2 = tail := by
      rcases hname with rfl | ⟨ext, hext, rfl⟩
      · exact ⟨tail, _, rfl, mem_ends_ext.mpr (.inl rfl), rfl⟩
      · exact ⟨dot :: ext ++ tail, _, List.append_assoc base (dot :: ext) tail,
          mem_ends_ext.mpr (.inr ⟨ext, tail, hext, rfl, rfl⟩), rfl⟩
    rw [← hend] at htail
    refine ⟨x, mem_ends_seq.mpr ⟨_, mem_ends_start.mpr ⟨rfl, rfl⟩,
      mem_ends_seq.mpr ⟨(0 + base.length, s), ?_, mem_ends_seq.mpr ⟨x, hx, ?_⟩⟩⟩⟩
    · exact mem_ends_rep_one.mpr ⟨base, s, hs, hbase.1, hbase.2, rfl⟩
    · exact mem_ends_stop.mpr ⟨htail, rfl⟩

theorem matches_re83 (part : Str) :
    re83.matches lf part = true ↔ Name83 part ∨ NewlineName part := by
  rw [matches_re83_iff]
  constructor
  · rintro ⟨name, tail, hname, rfl | rfl, rfl⟩
    · rw [List.append_nil]
      exact .inl hname
    · exact .inr ⟨name, hname, rfl⟩
  · rintro (hname | ⟨name, hname, rfl⟩)
    · exact ⟨part, [], hname, .inl rfl, (List.append_nil part).symm⟩
    · exact ⟨name, [lf], hname, .inr rfl, rfl⟩

theorem Name83.lf_not_mem {name : Str} (h : Name83 name) : lf ∉ name := by
  have hword : ∀ {p lo hi w}, Word p lo hi w → p lf = false → lf ∉ w := by
    intro p lo hi w hw hp hmem
    rw [hw.2 lf hmem] at hp
    cases hp
  obtain ⟨base, hbase, rfl | ⟨ext, hext, rfl⟩⟩ := h
  · exact hword hbase (by decide)
  · rw [List.mem_append, List.mem_cons, not_or, not_or]
    exact ⟨hword hbase (by decide), by decide, hword hext (by decide)⟩

theorem NewlineName.not_name83 {part : Str} (h : NewlineName part) : ¬ Name83 part := by
  obtain ⟨name, -, rfl⟩ := h
  exact fun hname => hname.lf_not_mem (List.mem_append_right name List.mem_cons_self)

theorem NewlineName.ne_nil {part : Str} (h : NewlineName part) : part ≠ [] := by
  obtain ⟨name, -, rfl⟩ := h
  exact List.concat_ne_nil lf name

/-! ## What is accepted -/

def Passes (part : Str) : Prop := part ≠ [] → Name83 part ∨ NewlineName part

theorem checkParts_cons (path part : Str) (parts : List Str) :
    (Passes part ∧ checkParts path (part :: parts) = checkParts path parts) ∨
      (¬ Passes part ∧ ∃ message,
        checkParts path (part :: parts) = .error (.systemExit message [part, path])) := by
  rw [checkParts]
  by_cases hempty : part = []
  · exact .inl ⟨fun hne => absurd hempty hne, if_pos hempty⟩
  · rw [if_neg hempty]
    by_cases hmatch : re83.matches lf part = true
    · exact .inl ⟨fun _ => (matches_re83 part).mp hmatch, if_pos hmatch⟩
    · exact .inr ⟨fun hpass => hmatch ((matches_re83 part).mpr (hpass hempty)), _, if_neg hmatch⟩

theorem checkParts_ok_iff {path : Str} {parts : List Str} :
    checkParts path parts = .ok () ↔ ∀ part ∈ parts, Passes part := by
  induction parts with
  | nil => exact iff_of_true rfl fun part hpart => absurd hpart List.not_mem_nil
  | cons part parts ih =>
      rw [List.forall_mem_cons]
      rcases checkParts_cons path part parts with
        ⟨hpass, hnext⟩ | ⟨hpass, message, hrefused⟩
      · rw [hnext, ih, and_iff_right hpass]
      · rw [hrefused]
        exact iff_of_false (fun h => nomatch h) fun h => hpass h.1

theorem checkParts_error {path : Str} {parts : List Str} {e : Exn}
    (h : checkParts path parts = .error e) :
    ∃ message, ∃ part ∈ parts, ¬ Passes part ∧ e = .systemExit message [part, path] := by
  induction parts with
  | nil => cases h
  | cons part parts ih =>
      rcases checkParts_cons path part parts with
        ⟨-, hnext⟩ | ⟨hpass, message, hrefused⟩
      · obtain ⟨message, bad, hbad, hrest⟩ := ih (hnext.symm.trans h)
        exact ⟨message, bad, List.mem_cons_of_mem part hbad, hrest⟩
      · exact ⟨message, part, List.mem_cons_self, hpass, Except.error.inj (h.symm.trans hrefused)⟩

/-- `check_83` goes by the rule exactly when no component is a name with a newline behind it, or
another component makes it refuse the path anyway. -/
theorem check83_rule_iff (path : Str) :
    (check83 path = .ok () ↔ Fits83 path) ↔
      (∀ part ∈ path.splitOn slash, ¬ NewlineName part) ∨
        ∃ part ∈ path.splitOn slash, part ≠ [] ∧ ¬ Name83 part ∧ ¬ NewlineName part := by
  have hpasses : (∃ part ∈ path.splitOn slash,
      part ≠ [] ∧ ¬ Name83 part ∧ ¬ NewlineName part) ↔
        ¬ ∀ part ∈ path.splitOn slash, Passes part := by
    simp only [Passes, not_forall, not_or, exists_prop]
  rw [hpasses, check83, checkParts_ok_iff]
  by_cases hall : ∀ part ∈ path.splitOn slash, Passes part
  · rw [or_iff_left (not_not.mpr hall), iff_true_left hall]
    constructor
    · intro hfits part hpart hnewline
      exact hnewline.not_name83 (hfits part hpart hnewline.ne_nil)
    · intro hno part hpart hne
      exact (hall part hpart hne).resolve_right (hno part hpart)
  · refine iff_of_true (iff_of_false hall fun hfits => hall ?_) (.inr hall)
    exact fun part hpart hne => .inl (hfits part hpart hne)

/-- The path of the program, with a newline behind it. -/
theorem check83_accepts_newline :
    check83 (str "DEVEL/MPYTHON/MP.EXE\n") = .ok () ∧
      ¬ Fits83 (str "DEVEL/MPYTHON/MP.EXE\n") := by
  refine ⟨by decide, fun hfits => ?_⟩
  have hname := hfits (str "MP.EXE\n") (by decide) (by decide)
  exact hname.lf_not_mem (by decide)

end FreedosMicroPython.Release
