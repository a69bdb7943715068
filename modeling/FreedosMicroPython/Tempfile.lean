import Mathlib.Algebra.Ring.Nat
import FreedosMicroPython.Lib.Runs
import FreedosMicroPython.OsPath
/-!
# The `tempfile` module

`port/tempfile_uc386dos.c`: names made of the directory, the prefix, a counter and the
suffix, tried until `stat` knows none of that name. A directory counts with its first sixty
bytes, a prefix with its first eight and the counter with its last five digits.
-/

namespace FreedosMicroPython.Tempfile

open FreedosMicroPython.Lib.Runs FreedosMicroPython.OsPath

/-! ## The functions of the module -/

inductive Errno where
  | e2big
  | eexist
  deriving DecidableEq, Repr

def cString (s : List UInt8) : List UInt8 := s.takeWhile (· ≠ 0)

def tempfileGettempdir (getenv : List UInt8 → Option (List UInt8)) : List UInt8 :=
  match (getenv (str "TEMP")).or (getenv (str "TMP")) with
  | none => str "C:\\"
  | some t => if t = [] then str "C:\\" else t

/-- The arguments of one call, and the paths for which `stat` succeeds during it. -/
structure Call where
  suffix : List UInt8
  prefix_ : List UInt8
  dir : Option (List UInt8)
  stat : List UInt8 → Bool

/-- The loop over `v`, with `k` of the five digits to come; the lowest comes first. -/
def digits : Nat → Nat → List UInt8
  | 0, _ => []
  | k + 1, v =>
      UInt8.ofNat (48 + v % 10) ::
        if v / 10 ≠ 0 then digits k (v / 10) else List.replicate k '0'.toUInt8

def nameStem (dir prefix_ : List UInt8) (n : UInt32) : List UInt8 :=
  let name := dir.take 60
  let name :=
    if name ≠ [] ∧ ¬ name.getLast?.any isSep then name ++ ['\\'.toUInt8] else name
  name ++ prefix_.take 8 ++ (digits 5 n.toNat).reverse

def mktempLoop (stat : List UInt8 → Bool) (suffix prefix_ dir : List UInt8) :
    Nat → UInt32 → Except Errno (List UInt8) × UInt32
  | 0, tmpCounter => (.error .eexist, tmpCounter)
  | attempts + 1, tmpCounter =>
      let n := tmpCounter + 1
      let stem := nameStem dir prefix_ n
      if 80 < stem.length + suffix.length + 1 then (.error .e2big, n)
      else if stat (stem ++ suffix) then mktempLoop stat suffix prefix_ dir attempts n
      else (.ok (stem ++ suffix), n)

variable (getenv : List UInt8 → Option (List UInt8))

def Call.directory (call : Call) : List UInt8 :=
  match call.dir with
  | none => tempfileGettempdir getenv
  | some dir => cString dir

def tempfileMktemp (call : Call) (tmpCounter : UInt32) :
    Except Errno (List UInt8) × UInt32 :=
  mktempLoop call.stat (cString call.suffix) (cString call.prefix_) (call.directory getenv)
    1024 tmpCounter

/-! ## Digits -/

theorem digits_zero (k : Nat) : digits k 0 = List.replicate k '0'.toUInt8 := by
  cases k <;> rfl

theorem digits_succ (k v : Nat) :
    digits (k + 1) v = UInt8.ofNat (48 + v % 10) :: digits k (v / 10) := by
  rw [digits]
  by_cases hv : v / 10 = 0
  · rw [if_neg (not_not.mpr hv), hv, digits_zero]
  · rw [if_pos hv]

theorem length_digits (k v : Nat) : (digits k v).length = k := by
  induction k generalizing v with
  | zero => rfl
  | succ k ih => rw [digits_succ, List.length_cons, ih]

theorem digits_eq_iff (k v v' : Nat) : digits k v = digits k v' ↔ v % 10 ^ k = v' % 10 ^ k := by
  induction k generalizing v v' with
  | zero => simp [digits, Nat.mod_one]
  | succ k ih =>
      have hdigit : UInt8.ofNat (48 + v % 10) = UInt8.ofNat (48 + v' % 10) ↔ v % 10 = v' % 10 := by
        rw [← UInt8.toNat_inj]
        simp only [UInt8.toNat_ofNat']
        omega
      rw [digits_succ, digits_succ, List.cons.injEq, hdigit, ih, Nat.pow_succ', Nat.mod_mul,
        Nat.mod_mul]
      generalize v / 10 % 10 ^ k = high
      generalize v' / 10 % 10 ^ k = high'
      omega

/-! ## One call -/

theorem add_one_add_ofNat (c : UInt32) (tried : Nat) :
    c + 1 + UInt32.ofNat tried = c + UInt32.ofNat (tried + 1) := by
  rw [Nat.add_comm tried 1, UInt32.ofNat_add, UInt32.add_assoc]
  rfl

/-- A path that was returned with the counter `n`: it fits the buffer, and `stat` does not
know it. -/
structure Found (stat : List UInt8 → Bool) (suffix prefix_ dir : List UInt8) (n : UInt32)
    (path : List UInt8) : Prop where
  path_eq : path = nameStem dir prefix_ n ++ suffix
  fits : path.length + 1 ≤ 80
  absent : stat path = false

/-- The counter goes up by one for each name that is tried, and the last one is returned. -/
theorem mktempLoop_spec (stat : List UInt8 → Bool) (suffix prefix_ dir : List UInt8)
    (attempts : Nat) (tmpCounter : UInt32) :
    ∃ tried ≤ attempts, (0 < attempts → 0 < tried) ∧
      (mktempLoop stat suffix prefix_ dir attempts tmpCounter).2 =
        tmpCounter + UInt32.ofNat tried ∧
      ∀ path, (mktempLoop stat suffix prefix_ dir attempts tmpCounter).1 = .ok path →
        Found stat suffix prefix_ dir (tmpCounter + UInt32.ofNat tried) path := by
  induction attempts generalizing tmpCounter with
  | zero =>
      refine ⟨0, Nat.le_refl 0, fun h => h, (UInt32.add_zero _).symm, fun path h => ?_⟩
      cases h
  | succ attempts ih =>
      rw [mktempLoop]
      split
      · refine ⟨1, Nat.le_add_left 1 attempts, fun _ => Nat.one_pos, rfl, fun path h => ?_⟩
        cases h
      · next hfits =>
        split
        · obtain ⟨tried, hle, -, hcounter, hfound⟩ := ih (tmpCounter + 1)
          rw [add_one_add_ofNat] at hcounter hfound
          exact ⟨tried + 1, Nat.succ_le_succ hle, fun _ => Nat.succ_pos tried, hcounter, hfound⟩
        · next habsent =>
          refine ⟨1, Nat.le_add_left 1 attempts, fun _ => Nat.one_pos, rfl, fun path h => ?_⟩
          cases h
          refine ⟨rfl, ?_, Bool.eq_false_iff.mpr habsent⟩
          rw [List.length_append]
          exact Nat.not_lt.mp hfits

theorem tempfileMktemp_spec (call : Call) (tmpCounter : UInt32) :
    ∃ tried, 0 < tried ∧ tried ≤ 1024 ∧
      (tempfileMktemp getenv call tmpCounter).2 = tmpCounter + UInt32.ofNat tried ∧
      ∀ path, (tempfileMktemp getenv call tmpCounter).1 = .ok path →
        Found call.stat (cString call.suffix) (cString call.prefix_) (call.directory getenv)
          (tempfileMktemp getenv call tmpCounter).2 path := by
  obtain ⟨tried, hle, hpos, hcounter, hfound⟩ :=
    mktempLoop_spec call.stat (cString call.suffix) (cString call.prefix_)
      (call.directory getenv) 1024 tmpCounter
  refine ⟨tried, hpos (by decide), hle, hcounter, fun path h => ?_⟩
  have hpath := hfound path h
  rw [← hcounter] at hpath
  exact hpath

/-! ## Where the path lies -/

theorem nameStem_append (dir prefix_ suffix : List UInt8) (n : UInt32) :
    nameStem dir prefix_ n ++ suffix =
      glue (dir.take 60) (prefix_.take 8 ++ (digits 5 n.toNat).reverse ++ suffix) := by
  have hname : prefix_.take 8 ++ (digits 5 n.toNat).reverse ++ suffix ≠ [] := by
    intro h
    have hlen := congrArg List.length h
    simp only [List.length_append, List.length_reverse, length_digits, List.length_nil] at hlen
    omega
  rw [glue, append_gap hname, nameStem]
  simp only [List.append_assoc]

/-- The path is that of a file in `dir` whose name has the whole prefix and suffix. -/
def AsAsked (dir prefix_ suffix path : List UInt8) : Prop :=
  ∃ name, path = glue dir name ∧ (∀ c ∈ name, isSep c = false) ∧
    prefix_ <+: name ∧ suffix <:+ name

theorem digits_bounds (k v : Nat) : ∀ c ∈ digits k v, 48 ≤ c.toNat ∧ c.toNat ≤ 57 := by
  induction k generalizing v with
  | zero => exact fun c hc => absurd hc List.not_mem_nil
  | succ k ih =>
      rw [digits_succ, List.forall_mem_cons, UInt8.toNat_ofNat']
      exact ⟨by omega, ih (v / 10)⟩

theorem isSep_digits {k v : Nat} {c : UInt8} (hc : c ∈ digits k v) : isSep c = false := by
  have hbounds := digits_bounds k v c hc
  rw [isSep, Bool.or_eq_false_iff, decide_eq_false_iff_not, decide_eq_false_iff_not]
  constructor
  · rintro rfl
    exact absurd hbounds.2 (by decide)
  · rintro rfl
    exact absurd hbounds.1 (by decide)

theorem asAsked_nameStem {dir prefix_ suffix : List UInt8} (hdir : dir.length ≤ 60)
    (hstem : prefix_.length ≤ 8) (hsep : ∀ c ∈ prefix_ ++ suffix, isSep c = false)
    (n : UInt32) : AsAsked dir prefix_ suffix (nameStem dir prefix_ n ++ suffix) := by
  rw [nameStem_append, List.take_of_length_le hdir, List.take_of_length_le hstem]
  refine ⟨_, rfl, fun c hc => ?_, ?_, ?_⟩
  · rw [List.mem_append, List.mem_append, List.mem_reverse] at hc
    rcases hc with (hc | hc) | hc
    · exact hsep c (List.mem_append_left _ hc)
    · exact isSep_digits hc
    · exact hsep c (List.mem_append_right _ hc)
  · rw [List.append_assoc]
    exact List.prefix_append _ _
  · exact List.suffix_append _ _

/-! ## Paths of one session -/

theorem nameStem_eq_iff (dir prefix_ suffix : List UInt8) (n n' : UInt32) :
    nameStem dir prefix_ n ++ suffix = nameStem dir prefix_ n' ++ suffix ↔
      n.toNat % 100000 = n'.toNat % 100000 := by
  rw [nameStem, nameStem, List.append_cancel_right_eq, List.append_cancel_left_eq,
    List.reverse_inj]
  exact digits_eq_iff 5 n.toNat n'.toNat

def SameArguments (call call' : Call) : Prop :=
  call.suffix = call'.suffix ∧ call.prefix_ = call'.prefix_ ∧ call.dir = call'.dir

def session (tmpCounter : UInt32) (calls : List Call) :
    List (Call × Except Errno (List UInt8)) :=
  emitted (fun tmpCounter call => (tempfileMktemp getenv call tmpCounter).2)
    (fun tmpCounter call => [(call, (tempfileMktemp getenv call tmpCounter).1)]) tmpCounter calls

def namesTried (tmpCounter : UInt32) : List Call → Nat
  | [] => 0
  | call :: calls =>
      let after := (tempfileMktemp getenv call tmpCounter).2
      (after - tmpCounter).toNat + namesTried after calls

/-- What the entry returns, if it is a path, was made with the counter `n`. -/
def MadeWith (n : UInt32) (entry : Call × Except Errno (List UInt8)) : Prop :=
  ∀ path, entry.2 = .ok path → path =
    nameStem (entry.1.directory getenv) (cString entry.1.prefix_) n ++ cString entry.1.suffix

theorem namesTried_cons (tmpCounter : UInt32) (call : Call) (calls : List Call) :
    ∃ tried, 0 < tried ∧
      (tempfileMktemp getenv call tmpCounter).2 = tmpCounter + UInt32.ofNat tried ∧
      MadeWith getenv (tmpCounter + UInt32.ofNat tried)
        (call, (tempfileMktemp getenv call tmpCounter).1) ∧
      namesTried getenv tmpCounter (call :: calls) =
        tried + namesTried getenv (tmpCounter + UInt32.ofNat tried) calls := by
  obtain ⟨tried, hpos, hle, hafter, hfound⟩ := tempfileMktemp_spec getenv call tmpCounter
  rw [hafter] at hfound
  refine ⟨tried, hpos, hafter, fun path h => (hfound path h).path_eq, ?_⟩
  have hdiff : (tmpCounter + UInt32.ofNat tried - tmpCounter).toNat = tried := by
    rw [UInt32.add_comm, UInt32.add_sub_cancel, UInt32.toNat_ofNat']
    omega
  rw [namesTried, hafter]
  exact congrArg (· + _) hdiff

theorem session_madeWith (tmpCounter : UInt32) (calls : List Call) :
    ∀ entry ∈ session getenv tmpCounter calls,
      ∃ tried, 0 < tried ∧ tried ≤ namesTried getenv tmpCounter calls ∧
        MadeWith getenv (tmpCounter + UInt32.ofNat tried) entry := by
  induction calls generalizing tmpCounter with
  | nil => exact fun entry h => absurd h List.not_mem_nil
  | cons call calls ih =>
      obtain ⟨tried, hpos, hafter, hmade, hnames⟩ := namesTried_cons getenv tmpCounter call calls
      intro entry hentry
      rw [hnames]
      rcases List.mem_cons.mp hentry with rfl | hlater
      · exact ⟨tried, hpos, Nat.le_add_right _ _, hmade⟩
      · dsimp only at hlater
        rw [hafter] at hlater
        obtain ⟨more, hmore, hle, hmade'⟩ := ih (tmpCounter + UInt32.ofNat tried) entry hlater
        rw [UInt32.add_assoc, ← UInt32.ofNat_add] at hmade'
        exact ⟨tried + more, by omega, by omega, hmade'⟩

/-- Counters less than 67296 apart have different last digits, also where the later one has
wrapped around. -/
theorem counter_ne {n : UInt32} {more : Nat} (hpos : 0 < more) (hle : more < 67296) :
    n.toNat % 100000 ≠ (n + UInt32.ofNat more).toNat % 100000 := by
  have hn := n.toNat_lt
  rw [UInt32.toNat_add, UInt32.toNat_ofNat', Nat.mod_eq_of_lt (show more < 2 ^ 32 by omega)]
  by_cases hwrap : n.toNat + more < 2 ^ 32
  · rw [Nat.mod_eq_of_lt hwrap]
    omega
  · have hback : (n.toNat + more) % 2 ^ 32 = n.toNat + more - 2 ^ 32 := by omega
    rw [hback]
    omega

/-- Two entries with the same arguments return different paths, if any. -/
def Differ (entry entry' : Call × Except Errno (List UInt8)) : Prop :=
  SameArguments entry.1 entry'.1 →
    ∀ path path', entry.2 = .ok path → entry'.2 = .ok path' → path ≠ path'

theorem differ_of_madeWith {n : UInt32} {more : Nat} (hpos : 0 < more) (hle : more < 67296)
    {entry entry' : Call × Except Errno (List UInt8)} (h : MadeWith getenv n entry)
    (h' : MadeWith getenv (n + UInt32.ofNat more) entry') : Differ entry entry' := by
  intro hsame path path' hpath hpath' heq
  obtain ⟨hsuffix, hstem, hdir⟩ := hsame
  have hdirectory : entry.1.directory getenv = entry'.1.directory getenv := by
    rw [Call.directory, Call.directory, hdir]
  rw [h path hpath, h' path' hpath', hdirectory, hstem, hsuffix] at heq
  exact counter_ne hpos hle ((nameStem_eq_iff _ _ _ _ _).mp heq)

theorem session_pairwise {tmpCounter : UInt32} {calls : List Call}
    (hnames : namesTried getenv tmpCounter calls < 67296) :
    (session getenv tmpCounter calls).Pairwise Differ := by
  induction calls generalizing tmpCounter with
  | nil => exact .nil
  | cons call calls ih =>
      obtain ⟨tried, hpos, hafter, hmade, hsplit⟩ := namesTried_cons getenv tmpCounter call calls
      rw [hsplit] at hnames
      have hsession : session getenv tmpCounter (call :: calls) =
          (call, (tempfileMktemp getenv call tmpCounter).1) ::
            session getenv (tmpCounter + UInt32.ofNat tried) calls := by
        rw [← hafter]
        rfl
      rw [hsession]
      refine List.pairwise_cons.mpr ⟨fun entry hentry => ?_, ih (by omega)⟩
      obtain ⟨more, hmore, hle, hmade'⟩ := session_madeWith getenv _ calls entry hentry
      exact differ_of_madeWith getenv hmore (by omega) hmade hmade'

/-- A path that is returned does not exist and is made of the capped arguments, so that it is
as asked for when no cap cuts; two paths with the same arguments are the same exactly when
their counters have the same last five digits, so that they differ while fewer than 67296
names are tried. -/
theorem tempfileMktemp_absent_and_distinct :
    (∀ call tmpCounter path, (tempfileMktemp getenv call tmpCounter).1 = .ok path →
      call.stat path = false ∧
      path = glue ((call.directory getenv).take 60)
        ((cString call.prefix_).take 8 ++
          (digits 5 (tempfileMktemp getenv call tmpCounter).2.toNat).reverse ++
          cString call.suffix) ∧
      ((call.directory getenv).length ≤ 60 → (cString call.prefix_).length ≤ 8 →
        (∀ c ∈ cString call.prefix_ ++ cString call.suffix, isSep c = false) →
        AsAsked (call.directory getenv) (cString call.prefix_) (cString call.suffix) path)) ∧
    (∀ call call' n n' path path', SameArguments call call' →
      (tempfileMktemp getenv call n).1 = .ok path →
      (tempfileMktemp getenv call' n').1 = .ok path' →
      (path = path' ↔ (tempfileMktemp getenv call n).2.toNat % 100000 =
        (tempfileMktemp getenv call' n').2.toNat % 100000)) ∧
    ∀ tmpCounter calls, namesTried getenv tmpCounter calls < 67296 →
      (session getenv tmpCounter calls).Pairwise Differ := by
  refine ⟨fun call tmpCounter path h => ?_, fun call call' n n' path path' hsame h h' => ?_,
    fun tmpCounter calls => session_pairwise getenv⟩
  · obtain ⟨tried, -, -, -, hfound⟩ := tempfileMktemp_spec getenv call tmpCounter
    obtain ⟨hpath, -, habsent⟩ := hfound path h
    refine ⟨habsent, hpath.trans (nameStem_append _ _ _ _), fun hdir hstem hsep => ?_⟩
    rw [hpath]
    exact asAsked_nameStem hdir hstem hsep _
  · obtain ⟨tried, -, -, -, hfound⟩ := tempfileMktemp_spec getenv call n
    obtain ⟨tried', -, -, -, hfound'⟩ := tempfileMktemp_spec getenv call' n'
    obtain ⟨hsuffix, hstem, hdir⟩ := hsame
    have hdirectory : call.directory getenv = call'.directory getenv := by
      rw [Call.directory, Call.directory, hdir]
    rw [(hfound path h).path_eq, (hfound' path' h').path_eq, hdirectory, hstem, hsuffix]
    exact nameStem_eq_iff _ _ _ _ _

/-! ## Capped arguments -/

def noEnvironment : List UInt8 → Option (List UInt8) := fun _ => none

def longPrefix : Call := ⟨[], str "temporary", some (str "C:\\"), fun _ => false⟩

/-- The first name of a session exists already. -/
def textFile : Call := ⟨str ".txt", str "tmp", none, (· == str "C:\\tmp00001.txt")⟩

theorem tempfileMktemp_absent_and_distinct_textFile :
    (tempfileMktemp noEnvironment textFile 0).1 = .ok (str "C:\\tmp00002.txt") ∧
    textFile.stat (str "C:\\tmp00002.txt") = false ∧
    AsAsked (str "C:\\") (str "tmp") (str ".txt") (str "C:\\tmp00002.txt") ∧
    (session noEnvironment 0 [textFile, textFile]).map Prod.snd =
      [.ok (str "C:\\tmp00002.txt"), .ok (str "C:\\tmp00003.txt")] ∧
    (session noEnvironment 0 [textFile, textFile]).Pairwise Differ := by
  have hreturned : (tempfileMktemp noEnvironment textFile 0).1 =
      .ok (str "C:\\tmp00002.txt") := by
    decide +kernel
  have hsep : (cString (str "tmp") ++ cString (str ".txt")).all (fun c => !isSep c) = true := by
    decide
  obtain ⟨hmade, -, hsession⟩ := tempfileMktemp_absent_and_distinct noEnvironment
  obtain ⟨habsent, -, hasked⟩ := hmade textFile 0 _ hreturned
  refine ⟨hreturned, habsent, hasked (by decide) (by decide) fun c hc => ?_, by decide +kernel,
    hsession 0 _ (by decide +kernel)⟩
  exact (Bool.not_eq_true' _).mp (List.all_eq_true.mp hsep c hc)

theorem tempfileMktemp_cuts_prefix :
    (tempfileMktemp noEnvironment longPrefix 0).1 = .ok (str "C:\\temporar00001") ∧
    ¬ (∀ getenv call tmpCounter path, (tempfileMktemp getenv call tmpCounter).1 = .ok path →
      AsAsked (call.directory getenv) (cString call.prefix_) (cString call.suffix) path) ∧
    (tempfileMktemp noEnvironment longPrefix 100000).1 =
      (tempfileMktemp noEnvironment longPrefix 0).1 := by
  have hreturned :
      (tempfileMktemp noEnvironment longPrefix 0).1 = .ok (str "C:\\temporar00001") := rfl
  have hwrapped : (tempfileMktemp noEnvironment longPrefix 100000).1 =
      .ok (str "C:\\temporar00001") := by decide +kernel
  refine ⟨hreturned, fun hall => ?_, hwrapped.trans hreturned.symm⟩
  obtain ⟨name, hpath, -, hstem, -⟩ := hall noEnvironment longPrefix 0 _ hreturned
  have hname : name = str "temporar00001" := by
    have hgap : gap (str "C:\\") name = [] := if_pos (.inr (.inr rfl))
    have hbehind : str "C:\\" ++ str "temporar00001" =
        str "C:\\" ++ gap (str "C:\\") name ++ name := hpath
    rw [hgap, List.append_nil] at hbehind
    exact (List.append_cancel_left hbehind).symm
  rw [hname] at hstem
  exact absurd hstem (by decide)

end FreedosMicroPython.Tempfile
