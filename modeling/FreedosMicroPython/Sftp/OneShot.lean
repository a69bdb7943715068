import FreedosMicroPython.Net.Ip4
import FreedosMicroPython.Sftp.Shell
/-!
# One-shot transfers

Two arguments of which one has a colon are turned into a second call of `main`. That call
reads back the options of the first one, so it is the transfer with the same port, user and
password.
-/

namespace FreedosMicroPython.Sftp

open FreedosMicroPython.Lib.Action FreedosMicroPython.OsPath FreedosMicroPython.Wget
open FreedosMicroPython.Ssh.Client
open FreedosMicroPython.Net.Ip4 (toNat_digit)

variable {interp : Interp} {peer : Peer} {gap : Nat → UInt8}

/-! ## Numbers -/

theorem intDigits_map (cs : List Char) (hdigit : ∀ c ∈ cs, c.isDigit = true) (value : Nat)
    (after : Bool) (hne : after = true ∨ cs ≠ []) :
    intDigits value after (cs.map Char.toUInt8) = some (Nat.ofDigitChars 10 cs value) := by
  induction cs generalizing value after with
  | nil =>
      obtain rfl : after = true := hne.resolve_right (fun h => h rfl)
      rfl
  | cons c cs ih =>
      obtain ⟨heq, hlow, hhigh⟩ := toNat_digit (hdigit c List.mem_cons_self)
      have hrange : '0'.toUInt8 ≤ c.toUInt8 ∧ c.toUInt8 ≤ '9'.toUInt8 := by
        constructor
        · show (48 : Nat) ≤ c.toUInt8.toNat
          omega
        · show c.toUInt8.toNat ≤ 57
          omega
      rw [List.map_cons, intDigits, if_pos hrange,
        ih (fun d hd => hdigit d (List.mem_cons_of_mem c hd)) _ true (.inl rfl), heq,
        Nat.ofDigitChars_cons]
      rfl

theorem isDigit_toDigits {n : Nat} : ∀ c ∈ Nat.toDigits 10 n, c.isDigit = true :=
  fun _ hc => Nat.isDigit_of_mem_toDigits (by decide) (by decide) hc

theorem strip_eq_self {s : Str} (h : ∀ c ∈ s, isSpace c = false) : strip s = s := by
  have hdrop : s.dropWhile isSpace = s := by
    cases s with
    | nil => rfl
    | cons c s => rw [List.dropWhile_cons, h c List.mem_cons_self]; rfl
  rw [strip, hdrop, List.rdropWhile_eq_self_iff]
  intro hne
  rw [h _ (List.getLast_mem hne)]
  decide

theorem plain_digit {c : Char} (h : c.isDigit = true) :
    isSpace c.toUInt8 = false ∧ c.toUInt8 ≠ '-'.toUInt8 ∧ c.toUInt8 ≠ '+'.toUInt8 := by
  obtain ⟨heq, hlow, hhigh⟩ := toNat_digit h
  have hminus : '-'.toUInt8.toNat = 45 := rfl
  have hplus : '+'.toUInt8.toNat = 43 := rfl
  refine ⟨?_, fun hc => ?_, fun hc => ?_⟩
  · simp only [isSpace, Bool.or_eq_false_iff, decide_eq_false_iff_not, Bool.and_eq_false_iff,
      ← UInt8.toNat_inj, UInt8.le_iff_toNat_le]
    simp only [UInt8.reduceToNat]
    omega
  · rw [hc] at heq
    omega
  · rw [hc] at heq
    omega

theorem pyInt_of_strip {s cs : Str} {c : UInt8} (h : strip s = c :: cs) :
    pyInt s = if c = '-'.toUInt8 then (intDigits 0 false cs).map fun n => -(n : Int)
      else if c = '+'.toUInt8 then (intDigits 0 false cs).map fun n => (n : Int)
      else (intDigits 0 false (c :: cs)).map fun n => (n : Int) := by
  rw [pyInt, h]

theorem pyInt_strInt (n : Int) : pyInt (strInt n) = some n := by
  have hdigits : intDigits 0 false ((Nat.toDigits 10 n.natAbs).map Char.toUInt8) =
      some n.natAbs := by
    rw [intDigits_map _ isDigit_toDigits 0 false (.inr Nat.toDigits_ne_nil),
      Nat.ofDigitChars_ten_toDigits]
  have hplain : ∀ c ∈ (Nat.toDigits 10 n.natAbs).map Char.toUInt8,
      isSpace c = false ∧ c ≠ '-'.toUInt8 ∧ c ≠ '+'.toUInt8 := by
    intro c hc
    obtain ⟨d, hd, rfl⟩ := List.mem_map.mp hc
    exact plain_digit (isDigit_toDigits d hd)
  rcases hmap : (Nat.toDigits 10 n.natAbs).map Char.toUInt8 with _ | ⟨c, cs⟩
  · exact absurd (List.map_eq_nil_iff.mp hmap) Nat.toDigits_ne_nil
  · rw [hmap] at hdigits hplain
    rw [strInt, numeral, hmap]
    by_cases hneg : n < 0
    · have hstrip : strip ('-'.toUInt8 :: c :: cs) = '-'.toUInt8 :: c :: cs := by
        apply strip_eq_self
        intro d hd
        rcases List.mem_cons.mp hd with rfl | hd
        · decide
        · exact (hplain d hd).1
      have htext : str "-" ++ [] ++ c :: cs = '-'.toUInt8 :: c :: cs := rfl
      rw [if_pos hneg, htext, pyInt_of_strip hstrip, if_pos rfl, hdigits]
      change some (-(n.natAbs : Int)) = some n
      rw [Int.ofNat_natAbs_of_nonpos (Int.le_of_lt hneg), Int.neg_neg]
    · have hstrip : strip (c :: cs) = c :: cs := strip_eq_self fun d hd => (hplain d hd).1
      obtain ⟨-, hminus, hplus⟩ := hplain c List.mem_cons_self
      rw [if_neg hneg, List.append_nil, List.nil_append, pyInt_of_strip hstrip,
        if_neg hminus, if_neg hplus, hdigits]
      change some (n.natAbs : Int) = some n
      rw [Int.natAbs_of_nonneg (Int.not_lt.mp hneg)]

/-! ## The second call -/

def Undashed (o : Opts) : Prop := ∀ a ∈ o.positional, ¬str "-" <+: a

theorem undashed_plainArg {o o' : Opts} {a : Str} (ho : Undashed o)
    (h : plainArg o a = .opts o') : Undashed o' := by
  unfold plainArg at h
  split at h
  · cases h
  · split at h
    · cases h
    · next hdash =>
      cases h
      intro b hb
      rcases List.mem_append.mp hb with hb | hb
      · exact ho b hb
      · rw [List.mem_singleton.mp hb]
        exact hdash

theorem undashed_parseArgs {hasBatch : Bool} {o o' : Opts} {argv : List Str} (ho : Undashed o)
    (h : parseArgs hasBatch o argv = .opts o') : Undashed o' := by
  fun_induction parseArgs hasBatch o argv
  case case1 => exact Parsed.opts.inj h ▸ ho
  case case2 => exact undashed_plainArg ho h
  case case3 ih => exact ih ho h
  case case4 => cases h
  case case5 ih => exact ih ho h
  case case6 ih => exact ih ho h
  case case7 ih => exact ih ho h
  case case8 hplain ih => exact ih (undashed_plainArg ho hplain) h
  case case9 => exact undashed_plainArg ho h

theorem ne_of_undashed {a s : Str} (ha : ¬str "-" <+: a) (hs : str "-" <+: s) : a ≠ s := by
  rintro rfl
  exact ha hs

/-- An argument without a dash is positional wherever it stands. -/
theorem parseArgs_positional {hasBatch : Bool} (o : Opts) {a : Str} (ha : ¬str "-" <+: a)
    (rest : List Str) : parseArgs hasBatch o (a :: rest) =
      parseArgs hasBatch { o with positional := o.positional ++ [a] } rest := by
  have hplain : plainArg o a = .opts { o with positional := o.positional ++ [a] } := by
    have hhelp : ¬(a = str "-h" ∨ a = str "--help") :=
      not_or.mpr ⟨ne_of_undashed ha (by decide), ne_of_undashed ha (by decide)⟩
    rw [plainArg, if_neg hhelp, if_neg ha]
  cases rest with
  | nil => exact hplain
  | cons v rest =>
      rw [parseArgs, if_neg (ne_of_undashed ha (by decide)), if_neg (ne_of_undashed ha (by decide)),
        if_neg (ne_of_undashed ha (by decide)),
        if_neg fun h => ne_of_undashed ha (by decide) h.2, hplain]

/-- The second call reads the options of the first one. -/
theorem parseArgs_explicitArgs {o : Opts} {cmd : Str} (hcmd : ¬str "-" <+: cmd)
    (ho : Undashed o) {src dst : Str} (hpos : o.positional = [src, dst]) :
    parseArgs true {} (explicitArgs cmd o) =
      .opts { o with batch := none, positional := [cmd, src, dst] } := by
  rw [Undashed, hpos] at ho
  unfold explicitArgs
  rw [hpos, List.cons_append, List.cons_append, List.cons_append, List.nil_append,
    parseArgs_positional _ hcmd, parseArgs_positional _ (ho src (by simp)),
    parseArgs_positional _ (ho dst (by simp))]
  rw [parseArgs, if_pos rfl, pyInt_strInt]
  simp only
  rw [parseArgs, if_neg (by decide), if_pos rfl, parseArgs, if_neg (by decide),
    if_neg (by decide), if_pos rfl]
  rfl

/-- What two positional arguments do: the side with a colon is the remote one. The port, the
user and the password are those of the first call, whatever they are. -/
theorem main_oneShot (typed : List Str) (depth : Nat) {argv : List Str} {o : Opts}
    {src dst : Str} (hargv : parseArgs true {} argv = .opts o) (hpos : o.positional = [src, dst])
    (hget : src ≠ str "get") (hput : src ≠ str "put") :
    main interp peer gap typed (depth + 2) argv =
      if ':'.toUInt8 ∈ src ∧ ':'.toUInt8 ∉ dst then explicitGet peer o src dst
      else if ':'.toUInt8 ∈ dst ∧ ':'.toUInt8 ∉ src then explicitPut peer gap o src dst
      else hostSession interp peer gap typed o := by
  have ho : Undashed o := undashed_parseArgs (o := {}) (by simp [Undashed]) hargv
  have hsecond : ∀ cmd, ¬str "-" <+: cmd → parseArgs true {} (explicitArgs cmd o) =
      .opts { o with batch := none, positional := [cmd, src, dst] } :=
    fun cmd hcmd => parseArgs_explicitArgs hcmd ho hpos
  rw [main, hargv]
  simp only [hpos, List.head?_cons, Option.some.injEq, if_neg hget, if_neg hput]
  split
  · rw [main, hsecond _ (by decide)]
    simp only [List.head?_cons, if_true]
    rfl
  · split
    · rw [main, hsecond _ (by decide)]
      have hne : str "put" ≠ str "get" := by decide
      simp only [List.head?_cons, Option.some.injEq, if_neg hne, if_true]
      rfl
    · rfl

theorem main_oneShot_port :
    main ⟨none, .ok []⟩ (fun _ => {}) (fun _ => 0) [] 2
        [str "-P", str "2222", str "host:/etc/motd", str "-u", str "root", str "MOTD"] =
      explicitGet (fun _ => {}) ⟨2222, str "root", str "testpass", none,
        [str "host:/etc/motd", str "MOTD"]⟩ (str "host:/etc/motd") (str "MOTD") := by
  rw [main_oneShot [] 0 (o := ⟨2222, str "root", str "testpass", none,
    [str "host:/etc/motd", str "MOTD"]⟩) (by decide) rfl (by decide) (by decide)]
  rw [if_pos (by decide)]

end FreedosMicroPython.Sftp
