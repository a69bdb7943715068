import FreedosMicroPython.Lib.Scan
import Mathlib.Algebra.BigOperators.Group.List.Basic
/-!
# os.path

The string functions of `port/path_uc386dos.c` on DOS paths, as lists of bytes. Both
separators are read, and the backslash alone is written. `modPathJoin` is the product of a
monoid; the functions that take a path apart are read off its last separator and last dot.
-/

namespace FreedosMicroPython.OsPath

open FreedosMicroPython.Lib.Scan

/-- A string of the language, which is kept as its bytes. -/
def str (s : String) : List UInt8 := s.toList.map Char.toUInt8

/-! ## The functions of the module -/

def isSep (c : UInt8) : Bool := c = '\\'.toUInt8 || c = '/'.toUInt8

def lastSep (s : List UInt8) (len : Nat) : Option Nat := scanBack isSep s 0 len

/-- `last_dot`, from `start + 1` on; `none` is -1. -/
def lastDot (s : List UInt8) (start : Nat) : Nat → Option Nat
  | 0 => none
  | i + 1 =>
      if i ≤ start then none
      else if s[i]? = some '.'.toUInt8 then some i
      else if s[i]?.any isSep then none
      else lastDot s start i

/-- `absolute` in `mod_path_join`: a separator in front, or a drive letter. -/
def absolute (p : List UInt8) : Bool :=
  p[0]?.any isSep || p[1]? = some ':'.toUInt8

def joinPart (vstr p : List UInt8) : List UInt8 :=
  if p = [] then vstr
  else if absolute p then p
  else if vstr ≠ [] ∧ ¬ vstr.getLast?.any isSep then vstr ++ ['\\'.toUInt8] ++ p
  else vstr ++ p

def modPathJoin (args : List (List UInt8)) : List UInt8 :=
  if args = [] then [] else args.foldl joinPart []

def modPathSplit (p : List UInt8) : List UInt8 × List UInt8 :=
  match lastSep p p.length with
  | none => ([], p)
  | some sep =>
      let headLen := if sep = 0 ∨ sep = 2 ∧ p[1]? = some ':'.toUInt8 then sep + 1 else sep
      (p.take headLen, (p.drop (sep + 1)).take (p.length - sep - 1))

def modPathSplitext (p : List UInt8) : List UInt8 × List UInt8 :=
  let nameStart :=
    match lastSep p p.length with
    | none => 0
    | some sep => sep + 1
  match lastDot p nameStart p.length with
  | none => (p, [])
  | some dot => (p.take dot, (p.drop dot).take (p.length - dot))

def modPathBasename (p : List UInt8) : List UInt8 :=
  match lastSep p p.length with
  | none => p
  | some sep => (p.drop (sep + 1)).take (p.length - sep - 1)

def modPathDirname (p : List UInt8) : List UInt8 :=
  match lastSep p p.length with
  | none => []
  | some sep =>
      let headLen := if sep = 0 ∨ sep = 2 ∧ p[1]? = some ':'.toUInt8 then sep + 1 else sep
      p.take headLen

/-- One turn of the loop of `mod_path_normpath`, on the string so far and `prev_sep`. -/
def normStep (st : List UInt8 × Bool) (c : UInt8) : List UInt8 × Bool :=
  if isSep c then
    if st.2 then st else (st.1 ++ ['\\'.toUInt8], true)
  else (st.1 ++ [c], false)

def modPathNormpath (p : List UInt8) : List UInt8 :=
  let vstr := (p.foldl normStep ([], false)).1
  if vstr = [] then ['.'.toUInt8] else vstr

/-! ## Joining -/

def gap (a b : List UInt8) : List UInt8 :=
  if a = [] ∨ b = [] ∨ a.getLast?.any isSep then [] else ['\\'.toUInt8]

/-- The test for a separator that the loops make. -/
theorem append_gap {b : List UInt8} (hb : b ≠ []) (a : List UInt8) :
    a ++ gap a b =
      if a ≠ [] ∧ ¬ a.getLast?.any isSep then a ++ ['\\'.toUInt8] else a := by
  rw [gap]
  by_cases ha : a = []
  · rw [if_pos (.inl ha), if_neg fun h => h.1 ha, List.append_nil]
  · by_cases hlast : a.getLast?.any isSep = true
    · rw [if_pos (.inr (.inr hlast)), if_neg fun h => h.2 hlast, List.append_nil]
    · have hsep : ¬ (a = [] ∨ b = [] ∨ a.getLast?.any isSep = true) := by
        rintro (h | h | h)
        · exact ha h
        · exact hb h
        · exact hlast h
      rw [if_neg hsep, if_pos ⟨ha, hlast⟩]

/-- Two parts with a separator between them, whether or not the second is absolute. -/
def glue (a b : List UInt8) : List UInt8 := a ++ gap a b ++ b

@[simp] theorem glue_nil (a : List UInt8) : glue a [] = a := by simp [glue, gap]

@[simp] theorem nil_glue (b : List UInt8) : glue [] b = b := by simp [glue, gap]

theorem glue_eq_nil {a b : List UInt8} : glue a b = [] ↔ a = [] ∧ b = [] := by
  simp only [glue, List.append_eq_nil_iff]
  constructor
  · rintro ⟨⟨ha, -⟩, hb⟩
    exact ⟨ha, hb⟩
  · rintro ⟨rfl, rfl⟩
    exact ⟨⟨rfl, rfl⟩, rfl⟩

theorem getLast?_glue {b : List UInt8} (hb : b ≠ []) (a : List UInt8) :
    (glue a b).getLast? = b.getLast? :=
  List.getLast?_append_of_ne_nil _ hb

theorem gap_glue_left {b : List UInt8} (hb : b ≠ []) (a c : List UInt8) :
    gap (glue a b) c = gap b c := by
  simp only [gap, glue_eq_nil, getLast?_glue hb, hb, and_false]

theorem gap_glue_right {b : List UInt8} (hb : b ≠ []) (a c : List UInt8) :
    gap a (glue b c) = gap a b := by
  simp only [gap, glue_eq_nil, hb, false_and]

theorem glue_assoc (a b c : List UInt8) : glue (glue a b) c = glue a (glue b c) := by
  by_cases hb : b = []
  · rw [hb, glue_nil, nil_glue]
  · calc glue (glue a b) c
        = a ++ gap a b ++ b ++ gap b c ++ c := by rw [glue, gap_glue_left hb, glue]
      _ = a ++ gap a b ++ glue b c := by simp only [glue, List.append_assoc]
      _ = a ++ gap a (glue b c) ++ glue b c := by rw [gap_glue_right hb]
      _ = glue a (glue b c) := rfl

/-- What follows a part does not decide whether it is absolute: a separator is never the `:`
of a drive. -/
theorem absolute_glue {b : List UInt8} (hb : b ≠ []) (c : List UInt8) :
    absolute (glue b c) = absolute b := by
  match b, hb with
  | x :: y :: z, _ => rfl
  | [x], _ =>
      have hcolon : '\\'.toUInt8 ≠ ':'.toUInt8 := by decide
      cases hx : isSep x <;> cases c <;> simp [absolute, glue, gap, hx, hcolon]

theorem joinPart_eq (v p : List UInt8) :
    joinPart v p = if absolute p then p else glue v p := by
  by_cases hp : p = []
  · subst hp
    rw [joinPart, if_pos rfl, if_neg (by decide), glue_nil]
  · rw [joinPart, if_neg hp]
    by_cases habs : absolute p = true
    · rw [if_pos habs, if_pos habs]
    · rw [if_neg habs, if_neg habs, glue, append_gap hp]
      split <;> rfl

@[simp] theorem joinPart_nil (v : List UInt8) : joinPart v [] = v := if_pos rfl

@[simp] theorem nil_joinPart (p : List UInt8) : joinPart [] p = p := by
  rw [joinPart_eq, nil_glue, ite_self]

theorem joinPart_assoc (a b c : List UInt8) :
    joinPart (joinPart a b) c = joinPart a (joinPart b c) := by
  by_cases hb : b = []
  · rw [hb, joinPart_nil, nil_joinPart]
  · rw [joinPart_eq _ c, joinPart_eq b c]
    by_cases hc : absolute c = true
    · rw [if_pos hc, if_pos hc, joinPart_eq, if_pos hc]
    · -- The second part alone says whether the first is dropped.
      rw [if_neg hc, if_neg hc, joinPart_eq a b, joinPart_eq a (glue b c), absolute_glue hb]
      split
      · rfl
      · exact glue_assoc a b c

theorem modPathJoin_eq (args : List (List UInt8)) : modPathJoin args = args.foldl joinPart [] := by
  rw [modPathJoin]
  split
  · next h => rw [h, List.foldl_nil]
  · rfl

theorem modPathJoin_pair (a b : List UInt8) : modPathJoin [a, b] = joinPart a b := by
  rw [modPathJoin_eq, List.foldl_cons, List.foldl_cons, List.foldl_nil, nil_joinPart]

/-- A path as an argument of `os.path.join`, which is the product of paths. -/
structure Path where
  bytes : List UInt8

instance : Monoid Path where
  mul a b := ⟨joinPart a.bytes b.bytes⟩
  one := ⟨[]⟩
  mul_assoc a b c := congrArg Path.mk (joinPart_assoc a.bytes b.bytes c.bytes)
  one_mul a := congrArg Path.mk (nil_joinPart a.bytes)
  mul_one a := congrArg Path.mk (joinPart_nil a.bytes)

theorem modPathJoin_eq_prod (args : List Path) :
    modPathJoin (args.map Path.bytes) = args.prod.bytes := by
  rw [modPathJoin_eq, List.foldl_map, List.prod_eq_foldl]
  exact List.foldl_hom Path.bytes (fun _ _ => rfl)

theorem modPathJoin_append (xs ys : List Path) :
    modPathJoin ((xs ++ ys).map Path.bytes) =
      modPathJoin [modPathJoin (xs.map Path.bytes), modPathJoin (ys.map Path.bytes)] := by
  rw [modPathJoin_pair, modPathJoin_eq_prod, modPathJoin_eq_prod, modPathJoin_eq_prod,
    List.prod_append]
  rfl

theorem modPathJoin_monoid :
    (∀ a b c, modPathJoin [modPathJoin [a, b], c] = modPathJoin [a, modPathJoin [b, c]]) ∧
    (∀ a, modPathJoin [[], a] = a ∧ modPathJoin [a, []] = a) ∧
    ∀ parts, modPathJoin parts = parts.foldl (fun v p => modPathJoin [v, p]) [] := by
  refine ⟨fun a b c => ?_, fun a => ?_, fun parts => ?_⟩
  · simp only [modPathJoin_pair, joinPart_assoc]
  · simp only [modPathJoin_pair, joinPart_nil, nil_joinPart, and_self]
  · have hpair : (fun v p => modPathJoin [v, p]) = joinPart := funext₂ modPathJoin_pair
    rw [hpair, modPathJoin_eq]

example : modPathJoin [str "a", str "C:\\absolute"] = str "C:\\absolute" := by decide

/-! ## Splitting -/

def lastComponent (p : List UInt8) : List UInt8 := p.rtakeWhile fun c => !isSep c

theorem exists_dir_name (p : List UInt8) :
    ∃ dir name, p = dir ++ name ∧ (∀ c ∈ dir.getLast?, isSep c = true) ∧
      ∀ c ∈ name, isSep c = false := by
  cases lastView isSep p with
  | bare _ hname => exact ⟨[], p, rfl, by simp, hname⟩
  | split head sep name hsep hname =>
      exact ⟨head ++ [sep], name, List.append_cons .., by simpa using hsep, hname⟩

theorem lastComponent_append {dir name : List UInt8} (hdir : ∀ c ∈ dir.getLast?, isSep c = true)
    (hname : ∀ c ∈ name, isSep c = false) : lastComponent (dir ++ name) = name :=
  rtakeWhile_append_of_stop _ (by simpa using hdir) (by simpa using hname)

theorem lastSep_bare {name : List UInt8} (hname : ∀ c ∈ name, isSep c = false) :
    lastSep name name.length = none :=
  scanBack_bare isSep [] hname

theorem lastSep_split {name : List UInt8} {sep : UInt8} (head : List UInt8)
    (hsep : isSep sep = true) (hname : ∀ c ∈ name, isSep c = false) :
    lastSep (head ++ sep :: name) (head ++ sep :: name).length = some head.length :=
  scanBack_split isSep (Nat.zero_le _) hsep hname

theorem modPathSplit_bare {name : List UInt8} (hname : ∀ c ∈ name, isSep c = false) :
    modPathSplit name = ([], name) := by
  rw [modPathSplit, lastSep_bare hname]

theorem tail_split (head name : List UInt8) (sep : UInt8) :
    ((head ++ sep :: name).drop (head.length + 1)).take
      ((head ++ sep :: name).length - head.length - 1) = name := by
  have hlen : (head ++ [sep]).length = head.length + 1 := List.length_append
  rw [List.append_cons, List.drop_left' hlen, List.take_of_length_le]
  rw [List.length_append, hlen]
  omega

/-- The head keeps its separator at a root and at the root of a drive. -/
theorem modPathSplit_split {name : List UInt8} {sep : UInt8} (head : List UInt8)
    (hsep : isSep sep = true) (hname : ∀ c ∈ name, isSep c = false) :
    modPathSplit (head ++ sep :: name) = (head ++ [sep], name) ∨
      head ≠ [] ∧ modPathSplit (head ++ sep :: name) = (head, name) := by
  rw [modPathSplit, lastSep_split head hsep hname]
  dsimp only
  rw [tail_split]
  split
  · left
    have hlen : (head ++ [sep]).length = head.length + 1 := List.length_append
    rw [List.append_cons, List.take_left' hlen]
  · next hroot =>
      right
      refine ⟨?_, by simp⟩
      rintro rfl
      exact hroot (Or.inl rfl)

theorem modPathBasename_eq (p : List UInt8) : modPathBasename p = (modPathSplit p).2 := by
  rw [modPathBasename, modPathSplit]
  split <;> rfl

theorem modPathDirname_eq (p : List UInt8) : modPathDirname p = (modPathSplit p).1 := by
  rw [modPathDirname, modPathSplit]
  split <;> rfl

/-! ## Normalising -/

theorem normStep_sep {c d : UInt8} (hc : isSep c = true) (hd : isSep d = true)
    (st : List UInt8 × Bool) : normStep st c = normStep st d := by
  rw [normStep, normStep, if_pos hc, if_pos hd]

theorem normStep_snd (st : List UInt8 × Bool) (c : UInt8) : (normStep st c).2 = isSep c := by
  rw [normStep]
  cases hc : isSep c with
  | false => rfl
  | true =>
      rw [if_pos rfl]
      split
      · assumption
      · rfl

theorem normStep_twice {c d : UInt8} (hc : isSep c = true) (hd : isSep d = true)
    (st : List UInt8 × Bool) : normStep (normStep st c) d = normStep st c := by
  have hprev : (normStep st c).2 = true := by rw [normStep_snd, hc]
  rw [normStep, if_pos hd, if_pos hprev]

theorem modPathNormpath_sep {c d : UInt8} (hc : isSep c = true) (hd : isSep d = true)
    (xs ys : List UInt8) : modPathNormpath (xs ++ c :: ys) = modPathNormpath (xs ++ d :: ys) := by
  simp only [modPathNormpath, List.foldl_append, List.foldl_cons, normStep_sep hc hd]

theorem modPathNormpath_twice {c d : UInt8} (hc : isSep c = true) (hd : isSep d = true)
    (xs ys : List UInt8) :
    modPathNormpath (xs ++ c :: d :: ys) = modPathNormpath (xs ++ c :: ys) := by
  simp only [modPathNormpath, List.foldl_append, List.foldl_cons, normStep_twice hc hd]

/-- The separator that joining puts back is one of the path's own up to `normpath`. -/
theorem modPathNormpath_glue {head : List UInt8} {sep : UInt8} (hhead : head ≠ [])
    (hsep : isSep sep = true) (name : List UInt8) (hname : name ≠ []) :
    modPathNormpath (glue head name) = modPathNormpath (head ++ sep :: name) := by
  obtain ⟨front, c, rfl⟩ := List.eq_nil_or_concat' head |>.resolve_left hhead
  cases hc : isSep c with
  | true =>
      have hgap : gap (front ++ [c]) name = [] := by simp [gap, hc]
      rw [glue, hgap, List.append_nil, List.append_assoc, List.append_assoc]
      exact (modPathNormpath_twice hc hsep front name).symm
  | false =>
      have hgap : gap (front ++ [c]) name = ['\\'.toUInt8] := by simp [gap, hc, hname]
      rw [glue, hgap, List.append_assoc]
      exact modPathNormpath_sep (by decide) hsep _ _

theorem absolute_name {name : List UInt8} (hname : ∀ c ∈ name, isSep c = false)
    (hdrive : name[1]? ≠ some ':'.toUInt8) : absolute name = false := by
  rw [absolute, any_getElem? isSep hname, Bool.false_or]
  exact decide_eq_false hdrive

theorem modPathNormpath_join_split {p : List UInt8} (hp : lastComponent p ≠ [])
    (hdrive : (lastComponent p)[1]? ≠ some ':'.toUInt8) :
    modPathNormpath (modPathJoin [(modPathSplit p).1, (modPathSplit p).2]) =
      modPathNormpath p := by
  rw [modPathJoin_pair]
  cases lastView isSep p with
  | bare _ hname => rw [modPathSplit_bare hname, nil_joinPart]
  | split head sep name hsep hname =>
      have hlast : lastComponent (head ++ sep :: name) = name := by
        rw [List.append_cons]
        exact lastComponent_append (by simpa using hsep) hname
      rw [hlast] at hp hdrive
      have habs := absolute_name hname hdrive
      rcases modPathSplit_split head hsep hname with hroot | ⟨hhead, hsplit⟩
      · -- A root keeps its separator, and joining adds none.
        have hgap : gap (head ++ [sep]) name = [] := by simp [gap, hsep]
        rw [hroot, joinPart_eq, habs, if_neg Bool.false_ne_true, glue, hgap, List.append_nil,
          ← List.append_cons]
      · rw [hsplit, joinPart_eq, habs, if_neg Bool.false_ne_true]
        exact modPathNormpath_glue hhead hsep name hp

theorem modPathJoin_split (p : List UInt8) :
    (lastComponent p ≠ [] → (lastComponent p)[1]? ≠ some ':'.toUInt8 →
      modPathNormpath (modPathJoin [(modPathSplit p).1, (modPathSplit p).2]) =
        modPathNormpath p) ∧
    modPathBasename p = (modPathSplit p).2 ∧ modPathDirname p = (modPathSplit p).1 :=
  ⟨modPathNormpath_join_split, modPathBasename_eq p, modPathDirname_eq p⟩

theorem modPathJoin_split_slashes :
    modPathNormpath (modPathJoin [str "C:/dir/", str "file.txt"]) =
      modPathNormpath (str "C:/dir//file.txt") :=
  (modPathJoin_split (str "C:/dir//file.txt")).1 (by decide) (by decide)

/-! ## Extensions -/

def isDot (c : UInt8) : Bool := c = '.'.toUInt8

theorem lastDot_eq_scanBack {s : List UInt8} {start : Nat}
    (h : ∀ i, start < i → s[i]?.any isSep = false) (n : Nat) :
    lastDot s start n = scanBack isDot s (start + 1) n := by
  induction n with
  | zero => rfl
  | succ n ih =>
      rw [lastDot, scanBack, ih]
      by_cases hn : n ≤ start
      · rw [if_pos hn, if_pos (Nat.lt_succ_of_le hn)]
      · have hdot : s[n]?.any isDot = true ↔ s[n]? = some '.'.toUInt8 := by
          cases s[n]? <;> simp [isDot]
        rw [if_neg hn, if_neg (fun hlt => hn (Nat.le_of_lt_succ hlt)), h n (by omega)]
        simp only [hdot, Bool.false_eq_true, if_false]

theorem nameStart_eq {dir name : List UInt8} (hdir : ∀ c ∈ dir.getLast?, isSep c = true)
    (hname : ∀ c ∈ name, isSep c = false) :
    (match lastSep (dir ++ name) (dir ++ name).length with
      | none => 0
      | some sep => sep + 1) = dir.length := by
  rcases List.eq_nil_or_concat' dir with rfl | ⟨head, sep, rfl⟩
  · rw [List.nil_append, lastSep_bare hname]
    rfl
  · rw [← List.append_cons, lastSep_split head (by simpa using hdir) hname]
    have hlen : (head ++ [sep]).length = head.length + 1 := List.length_append
    exact hlen.symm

/-- What `splitext` finds in a name: the last dot that is not its first character. -/
theorem modPathSplitext_cases {dir name : List UInt8}
    (hdir : ∀ c ∈ dir.getLast?, isSep c = true) (hname : ∀ c ∈ name, isSep c = false) :
    (modPathSplitext (dir ++ name) = (dir ++ name, []) ∧ ∀ c ∈ name.tail, isDot c = false) ∨
    ∃ stem e, name = stem ++ '.'.toUInt8 :: e ∧ stem ≠ [] ∧ (∀ c ∈ e, isDot c = false) ∧
      modPathSplitext (dir ++ name) = (dir ++ stem, '.'.toUInt8 :: e) := by
  have hsep : ∀ i, dir.length < i → (dir ++ name)[i]?.any isSep = false := by
    intro i hi
    rw [List.getElem?_append_right hi.le]
    exact any_getElem? isSep hname _
  rw [modPathSplitext, nameStart_eq hdir hname, lastDot_eq_scanBack hsep]
  cases name with
  | nil =>
      left
      rw [scanBack_none isDot fun i hi hin => by simp at hin; omega]
      simp
  | cons c rest =>
      cases lastView isDot rest with
      | bare _ hrest =>
          left
          have hnone := scanBack_bare isDot (dir ++ [c]) hrest
          rw [← List.append_cons, List.length_append, List.length_singleton] at hnone
          rw [hnone]
          exact ⟨rfl, hrest⟩
      | split xs d e hd he =>
          right
          obtain rfl : d = '.'.toUInt8 := by simpa [isDot] using hd
          refine ⟨c :: xs, e, rfl, List.cons_ne_nil _ _, he, ?_⟩
          have hstart : dir.length + 1 ≤ (dir ++ c :: xs).length := by simp
          have hsome := scanBack_split isDot hstart hd he
          rw [List.append_assoc, List.cons_append] at hsome
          rw [hsome]
          have hstem : dir ++ c :: (xs ++ '.'.toUInt8 :: e) =
              (dir ++ c :: xs) ++ '.'.toUInt8 :: e := by
            rw [List.append_assoc, List.cons_append]
          dsimp only
          rw [hstem, List.take_left, List.drop_left, List.length_append, Nat.add_sub_cancel_left,
            List.take_length]

/-- Two dots or more and then nothing, or a text without a dot. -/
def DotLed (name : List UInt8) : Prop :=
  2 ≤ (name.takeWhile isDot).length ∧ ∀ c ∈ name.dropWhile isDot, isDot c = false

theorem not_dotLed {name : List UInt8} (htail : ∀ c ∈ name.tail, isDot c = false) :
    ¬ DotLed name := by
  rintro ⟨htwo, -⟩
  match name, htail with
  | [], _ => simp at htwo
  | [c], _ => cases hc : isDot c <;> simp [hc] at htwo
  | c :: d :: rest, htail =>
      have hd : isDot d = false := htail d (by simp)
      cases hc : isDot c <;> simp [hc, hd] at htwo

theorem dotLed_iff {stem e : List UInt8} (hstem : stem ≠ []) (he : ∀ c ∈ e, isDot c = false) :
    DotLed (stem ++ '.'.toUInt8 :: e) ↔ ∀ c ∈ stem, isDot c = true := by
  constructor
  · rintro ⟨-, hrest⟩
    by_contra hdots
    have hne : stem.dropWhile isDot ≠ [] := by simpa [List.dropWhile_eq_nil_iff] using hdots
    rw [List.dropWhile_append, if_neg (by simpa using hne)] at hrest
    exact absurd (hrest '.'.toUInt8 (by simp)) (by decide)
  · intro hdots
    have hlead : ∀ c ∈ stem ++ ['.'.toUInt8], isDot c = true := by
      intro c hc
      rcases List.mem_append.mp hc with hc | hc
      · exact hdots c hc
      · rw [List.mem_singleton.mp hc]
        rfl
    have hstop : ∀ c ∈ e.head?, isDot c = false := fun c hc => he c (List.mem_of_head? hc)
    rw [DotLed, List.append_cons, takeWhile_append_of_stop isDot hlead hstop,
      dropWhile_append_of_stop isDot hlead hstop, List.length_append]
    exact ⟨Nat.succ_le_succ (List.length_pos_iff.mpr hstem), he⟩

/-- The rule that CPython's `splitext` follows. -/
structure SplitextRule (p root ext : List UInt8) : Prop where
  joined : root ++ ext = p
  shape : ext = [] ∨ ∃ e, ext = '.'.toUInt8 :: e ∧ ∀ c ∈ e, c ≠ '.'.toUInt8 ∧ isSep c = false
  named : ext ≠ [] → ∃ c ∈ lastComponent root, c ≠ '.'.toUInt8

theorem modPathSplitext_rule_iff (p : List UInt8) :
    SplitextRule p (modPathSplitext p).1 (modPathSplitext p).2 ↔ ¬ DotLed (lastComponent p) := by
  obtain ⟨dir, name, rfl, hdir, hname⟩ := exists_dir_name p
  rw [lastComponent_append hdir hname]
  rcases modPathSplitext_cases hdir hname with ⟨hnone, htail⟩ | ⟨stem, e, rfl, hstem, he, hsome⟩
  · rw [hnone]
    refine iff_of_true ⟨List.append_nil _, Or.inl rfl, fun h => absurd rfl h⟩ (not_dotLed htail)
  · have hsplit := List.forall_mem_append.mp hname
    have hrest := List.forall_mem_cons.mp hsplit.2
    rw [hsome, dotLed_iff hstem he]
    constructor
    · rintro ⟨-, -, hnamed⟩ hdots
      obtain ⟨c, hc, hdot⟩ := hnamed (List.cons_ne_nil _ _)
      rw [lastComponent_append hdir hsplit.1] at hc
      exact hdot (by simpa [isDot] using hdots c hc)
    · intro hdots
      obtain ⟨c, hc, hdot⟩ : ∃ c ∈ stem, ¬ isDot c = true := by simpa using hdots
      refine ⟨List.append_assoc _ _ _, Or.inr ⟨e, rfl, fun d hd => ⟨?_, hrest.2 d hd⟩⟩, fun _ => ?_⟩
      · simpa [isDot] using he d hd
      · rw [lastComponent_append hdir hsplit.1]
        exact ⟨c, hc, by simpa [isDot] using hdot⟩

/-- The second of two leading dots starts an extension. -/
theorem modPathSplitext_leading_dots :
    ¬ SplitextRule (str "..foo") (modPathSplitext (str "..foo")).1
      (modPathSplitext (str "..foo")).2 := by
  have hsplit : modPathSplitext (str "..foo") = (str ".", str ".foo") := by decide
  have hlast : lastComponent (str ".") = ['.'.toUInt8] := by decide
  rw [hsplit]
  intro h
  obtain ⟨c, hc, hdot⟩ := h.named (by decide)
  rw [hlast] at hc
  exact hdot (List.mem_singleton.mp hc)

end FreedosMicroPython.OsPath
