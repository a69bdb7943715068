import FreedosMicroPython.Sftp.Rules
/-!
# A batch file and the keyboard

A command does not look at what was printed before it, and prints behind it. So the two command
loops do the same with the same lines, and print the same but for the prompts and the echo.
-/

namespace FreedosMicroPython.Sftp

open FreedosMicroPython.Lib.Action FreedosMicroPython.OsPath FreedosMicroPython.Wget
open FreedosMicroPython.Ssh.Channel FreedosMicroPython.Ssh.Client

variable {interp : Interp} {peer : Peer} {gap : Nat → UInt8} {α : Type}

/-- The same but for what was printed: the same has been printed behind `p` and behind `q`. -/
def Shifted (p q : Str) (s t : World Shell) : Prop :=
  ∃ text, s.out = p ++ text ∧ t = { s with out := q ++ text }

theorem Plain.out {m : Answer → World Shell → Outcome α × World Shell} (hm : Plain m) (a : Answer)
    (w : World Shell) : (m a w).2.out = w.out := by
  have hblind := hm.blind a w w.out
  exact congrArg (fun r => r.2.out) hblind

theorem shifted_method {β : Type} {isOpen : Ssh.Objects.State → Bool} {r : Request}
    {m : Answer → World Shell → Outcome α × World Shell} {v : Answer → α → β} (hm : Plain m)
    (p q : Str) : Respects (Shifted p q) (method peer isOpen r m v) := by
  rintro s t ⟨text, hout, rfl⟩
  have hblind := hm.blind (peer (s.requests ++ [r])) { s with requests := s.requests ++ [r] }
    (q ++ text)
  have hsame := hm.out (peer (s.requests ++ [r])) { s with requests := s.requests ++ [r] }
  unfold method
  simp only [hblind]
  split
  · rcases hcall : m (peer (s.requests ++ [r])) { s with requests := s.requests ++ [r] } with ⟨o, w⟩
    rw [hcall] at hsame
    have hw : w.out = p ++ text := hsame.trans hout
    simp only
    split
    · exact ⟨rfl, text, hw, rfl⟩
    · cases o <;> exact ⟨rfl, text, hw, rfl⟩
  · exact ⟨rfl, text, hout, rfl⟩

/-- Every command prints the same whatever was printed before it. -/
theorem rules_shifted :
    Rules peer (fun _ => True) fun _ a => ∀ p q, Respects (Shifted p q) a where
  paths := ⟨trivial, fun _ _ h => h, fun _ h => h⟩
  pure x _ _ := respects_pure x
  raise e _ _ := respects_raise e
  bind _ _ ha hf p q := (ha p q).bind fun x => hf x p q
  tryFinally _ _ ha hfinal p q := (ha p q).finally (hfinal p q)
  onOSError _ _ ha hhandler p q := by
    refine (ha p q).except fun e h he => ?_
    cases e with
    | osError text =>
        cases he
        exact hhandler text p q
    | _ => cases he
  write text p q := respects_modify fun s t ⟨before, hs, ht⟩ => by
    rw [ht]
    exact ⟨before ++ text, by rw [hs, List.append_assoc], by rw [List.append_assoc]⟩
  reads g hg p q := respects_reads fun s t ⟨text, _, ht⟩ => by
    rw [ht]
    exact (hg s _).symm
  shell _ hf p q := by
    rintro s t ⟨text, hs, rfl⟩
    exact hf s.vars trivial p q s _ ⟨text, hs, rfl⟩
  lcwd _ p q := respects_modify fun s t ⟨text, hs, ht⟩ => ⟨text, hs, by rw [ht]⟩
  cwd _ _ _ p q := by
    refine (shifted_method ⟨fun _ _ => rfl, fun _ _ => rfl, fun _ _ _ => rfl⟩ p q).bind
      fun cwd => ?_
    exact respects_modify fun s t ⟨text, hs, ht⟩ => ⟨text, hs, by rw [ht]⟩
  ask r _ p q := by
    rintro s t ⟨text, hs, rfl⟩
    exact ⟨rfl, text, hs, rfl⟩
  method _ _ _ _ _ hm p q := shifted_method hm p q
  setLocal _ _ p q := respects_modify fun s t ⟨text, hs, ht⟩ => ⟨text, hs, by rw [ht]⟩

/-! ## One line -/

section
variable (interp peer gap)

/-- A line, from an empty output. -/
def lineRun (line : Str) (w : World Shell) : End Exc Bool × World Shell :=
  executeOne interp peer gap line { w with out := [] }

/-- What a line prints is put behind what was printed. -/
theorem executeOne_eq (line out : Str) (w : World Shell) :
    executeOne interp peer gap line { w with out := out } =
      ((lineRun interp peer gap line w).1, { (lineRun interp peer gap line w).2 with
        out := out ++ (lineRun interp peer gap line w).2.out }) := by
  have hline : Respects (Shifted [] out) (executeOne interp peer gap line) :=
    rules_shifted.executeOne line [] out
  obtain ⟨hend, text, hout, hworld⟩ := hline { w with out := [] } { w with out := out }
    ⟨[], rfl, by rw [List.append_nil]⟩
  rw [List.nil_append] at hout
  exact Prod.ext hend.symm (by rw [hworld, ← hout]; rfl)

/-- The lines that are executed, each with what it prints: up to one that ends the session. -/
def transcript : List Str → World Shell → List (Str × Str)
  | [], _ => []
  | line :: lines, w =>
      let r := lineRun interp peer gap line w
      (line, r.2.out) :: if r.1 = .value true then transcript lines r.2 else []

theorem transcript_lines (lines : List Str) (w : World Shell) :
    (transcript interp peer gap lines w).map Prod.fst <+: lines := by
  induction lines generalizing w with
  | nil => exact List.prefix_rfl
  | cons line lines ih =>
      rw [transcript, List.map_cons, List.cons_prefix_cons]
      refine ⟨rfl, ?_⟩
      split
      · exact ih _
      · exact List.nil_prefix

def prompt : Str := str "sftp> "

/-- A loop goes on behind a line. -/
def goOn (r : End Exc Bool × World Shell) (out : Str) (rest : Prog Shell Unit) :
    End Exc Unit × World Shell :=
  match r.1 with
  | .value true => rest { r.2 with out := out ++ r.2.out }
  | .value false => (.value (), { r.2 with out := out ++ r.2.out })
  | .raised e => (.raised e, { r.2 with out := out ++ r.2.out })
  | .stuck => (.stuck, { r.2 with out := out ++ r.2.out })

theorem interactiveBatch_cons (line : Str) (lines : List Str) (w : World Shell) (out : Str) :
    interactiveBatch interp peer gap (line :: lines) { w with out := out } =
      goOn (lineRun interp peer gap (chomp line) w) (out ++ (prompt ++ chomp line ++ [0x0A]))
        (interactiveBatch interp peer gap lines) := by
  have hline : (do
        print (str "sftp> " ++ chomp line)
        executeOne interp peer gap (chomp line) : Prog Shell Bool) { w with out := out } =
      executeOne interp peer gap (chomp line)
        { w with out := out ++ (prompt ++ chomp line ++ [0x0A]) } :=
    rfl
  change andThen _ _ _ = _
  rw [andThen, hline, executeOne_eq]
  rcases lineRun interp peer gap (chomp line) w with ⟨(_ | _) | e | _, w'⟩ <;> rfl

theorem interactiveTyped_cons (line : Str) (lines : List Str) (w : World Shell) (out : Str) :
    interactiveTyped interp peer gap (line :: lines) { w with out := out } =
      goOn (lineRun interp peer gap line w) (out ++ prompt)
        (interactiveTyped interp peer gap lines) := by
  change andThen (executeOne interp peer gap line) _ { w with out := out ++ prompt } = _
  rw [andThen, executeOne_eq]
  rcases lineRun interp peer gap line w with ⟨(_ | _) | e | _, w'⟩ <;> rfl

end

/-! ## The end of a session -/

theorem executeOne_quit {line : Str} (h : isQuit line = true) :
    executeOne interp peer gap line = pure false := by
  have hstrip : strip line ≠ [] ∧ ¬str "#" <+: strip line := by
    simp only [isQuit, Bool.or_eq_true, decide_eq_true_eq] at h
    rcases h with (h | h) | h <;> rw [h] <;> decide
  unfold executeOne
  rw [if_neg (not_or.mpr hstrip), if_pos h]

def GivesTrue (a : Prog Shell Bool) : Prop := Triple (fun _ => True) a fun r _ => r ≠ .value false

theorem givesTrue_pure : GivesTrue (pure true) := triple_pure fun _ _ => by simp

theorem givesTrue_bind {β : Type} (a : Prog Shell β) :
    GivesTrue (do let _ ← a; pure true) :=
  Triple.bind (Q := fun _ _ => True) (fun _ _ => trivial) (fun _ => givesTrue_pure)
    (fun _ _ _ => by simp) fun _ _ => by simp

variable (interp peer gap) in
theorem lineRun_quit (line : Str) (w : World Shell) :
    (lineRun interp peer gap line w).1 = .value false ↔ isQuit line = true := by
  constructor
  · intro h
    by_contra hquit
    have htrue : GivesTrue (executeOne interp peer gap line) := by
      unfold executeOne
      split
      · exact givesTrue_pure
      · split
        · exact givesTrue_pure
        · split
          · exact givesTrue_bind _
          · exact givesTrue_bind _
    exact htrue { w with out := [] } trivial h
  · intro h
    rw [lineRun, executeOne_quit h]
    rfl

theorem interactiveBatch_quit {q : Str} (hq : isQuit (chomp q) = true) (source rest : List Str) :
    interactiveBatch interp peer gap (source ++ q :: rest) =
      interactiveBatch interp peer gap (source ++ [q]) := by
  induction source with
  | nil =>
      unfold interactiveBatch
      simp only [List.nil_append, untilFalse, executeOne_quit hq]
      rfl
  | cons line lines ih =>
      unfold interactiveBatch at ih ⊢
      rw [List.cons_append, List.cons_append, untilFalse, untilFalse, ih]

/-! ## Both loops -/

/-- What the batch loop prints: each line behind its prompt, and what came of it. -/
def batchText (entries : List (Str × Str)) : Str :=
  entries.flatMap fun entry => prompt ++ entry.1 ++ [0x0A] ++ entry.2

/-- What the other one prints: the prompts, and what came of the lines. -/
def typedText (entries : List (Str × Str)) : Str :=
  entries.flatMap fun entry => prompt ++ entry.2

/-- The input comes to its end: the session is not ended by a line. -/
def ComesToEnd (r : End Exc Unit) (lines : List Str) : Prop :=
  r = .value () ∧ ∀ line ∈ lines, isQuit line = false

instance (r : End Exc Unit) (lines : List Str) : Decidable (ComesToEnd r lines) :=
  inferInstanceAs (Decidable (_ ∧ _))

theorem comesToEnd_cons {r : End Exc Unit} {line : Str} (h : isQuit line = false)
    (lines : List Str) : ComesToEnd r (line :: lines) ↔ ComesToEnd r lines := by
  rw [ComesToEnd, ComesToEnd, List.forall_mem_cons]
  exact ⟨fun ⟨hr, _, hlines⟩ => ⟨hr, hlines⟩, fun ⟨hr, hlines⟩ => ⟨hr, h, hlines⟩⟩

theorem batchText_cons (entry : Str × Str) (entries : List (Str × Str)) :
    batchText (entry :: entries) =
      prompt ++ entry.1 ++ [0x0A] ++ entry.2 ++ batchText entries := by
  rw [batchText, List.flatMap_cons]
  rfl

theorem typedText_cons (entry : Str × Str) (entries : List (Str × Str)) :
    typedText (entry :: entries) = prompt ++ entry.2 ++ typedText entries := by
  rw [typedText, List.flatMap_cons]
  rfl

variable (interp peer gap) in
theorem loops_alike (source : List Str) (w : World Shell) (out out' : Str) :
    let batch := interactiveBatch interp peer gap source { w with out := out }
    let typed := interactiveTyped interp peer gap (source.map chomp) { w with out := out' }
    let entries := transcript interp peer gap (source.map chomp) w
    batch.1 = typed.1 ∧ ({ batch.2 with out := [] } : World Shell) = { typed.2 with out := [] } ∧
      batch.2.out = out ++ batchText entries ∧
      typed.2.out = out' ++ typedText entries ++
        if ComesToEnd typed.1 (source.map chomp) then prompt ++ [0x0A] else [] := by
  induction source generalizing w out out' with
  | nil =>
      refine ⟨rfl, rfl, (List.append_nil _).symm, ?_⟩
      rw [List.map_nil, if_pos ⟨rfl, by simp⟩, transcript, typedText, List.flatMap_nil,
        List.append_nil, ← List.append_assoc]
      rfl
  | cons line lines ih =>
      have hquit := lineRun_quit interp peer gap (chomp line) w
      rw [List.map_cons, interactiveBatch_cons, interactiveTyped_cons, transcript]
      -- Only a line that ends in `true` is followed by others.
      have hlast : ∀ (o : Str) (r : End Exc Unit), ¬ComesToEnd r (chomp line :: lines.map chomp) →
          out ++ (prompt ++ chomp line ++ [0x0A]) ++ o = out ++ batchText [(chomp line, o)] ∧
            out' ++ prompt ++ o = out' ++ typedText [(chomp line, o)] ++
              if ComesToEnd r (chomp line :: lines.map chomp) then prompt ++ [0x0A] else [] := by
        intro o r hr
        rw [if_neg hr, batchText_cons, typedText_cons]
        simp [batchText, typedText]
      rcases hrun : lineRun interp peer gap (chomp line) w with ⟨(_ | _) | e | _, w'⟩ <;>
        rw [hrun] at hquit
      · exact ⟨rfl, rfl, hlast w'.out (.value ()) fun h =>
          absurd ((h.2 _ List.mem_cons_self).symm.trans (hquit.mp rfl)) (by decide)⟩
      · have hgoes : isQuit (chomp line) = false :=
          Bool.eq_false_iff.mpr fun h => nomatch hquit.mpr h
        obtain ⟨hend, hsame, hbatch, htyped⟩ := ih w'
          (out ++ (prompt ++ chomp line ++ [0x0A]) ++ w'.out) (out' ++ prompt ++ w'.out)
        refine ⟨hend, hsame, hbatch.trans ?_, htyped.trans ?_⟩
        · rw [if_pos rfl, batchText_cons]
          simp only [List.append_assoc]
        · rw [if_pos rfl, typedText_cons]
          simp only [goOn, comesToEnd_cons hgoes, List.append_assoc]
      · exact ⟨rfl, rfl, hlast w'.out (.raised e) fun h => nomatch h.1⟩
      · exact ⟨rfl, rfl, hlast w'.out .stuck fun h => nomatch h.1⟩

/-- The lines of a batch file do what the same lines do when they are typed: the end, the
requests, the objects, the files and the shell are the same, and so is what each line prints. The
batch loop prints every line behind its prompt, the other one a last prompt where its input comes
to the end. Nothing behind an exit line is done. -/
theorem batch_runs_as_typed (source : List Str) (w : World Shell) (out : Str) :
    let batch := interactiveBatch interp peer gap source w
    let typed := interactiveTyped interp peer gap (source.map chomp) { w with out := out }
    let entries := transcript interp peer gap (source.map chomp) w
    batch.1 = typed.1 ∧
      ({ batch.2 with out := [] } : World Shell) = { typed.2 with out := [] } ∧
      entries.map Prod.fst <+: source.map chomp ∧
      batch.2.out = w.out ++ batchText entries ∧
      typed.2.out = out ++ typedText entries ++
        (if ComesToEnd typed.1 (source.map chomp) then prompt ++ [0x0A] else []) ∧
      ∀ q rest, isQuit (chomp q) = true →
        interactiveBatch interp peer gap (source ++ q :: rest) w =
          interactiveBatch interp peer gap (source ++ [q]) w := by
  obtain ⟨hend, hsame, hbatch, htyped⟩ := loops_alike interp peer gap source w w.out out
  refine ⟨hend, hsame, transcript_lines interp peer gap _ w, hbatch, htyped, fun q rest hq => ?_⟩
  rw [interactiveBatch_quit hq]

end FreedosMicroPython.Sftp
