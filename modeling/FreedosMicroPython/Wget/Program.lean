import FreedosMicroPython.Lib.Items
import FreedosMicroPython.Sftp.Shell
import FreedosMicroPython.Wget.Outcome
import FreedosMicroPython.Wget.Sockets
/-!
# The wget program

`main` of `examples/wget.py`: the command line, what is printed, and the exit status.
-/

namespace FreedosMicroPython.Wget.Program

open FreedosMicroPython.Lib.Action FreedosMicroPython.Lib.Items FreedosMicroPython.Lib.Ledger
open FreedosMicroPython.OsPath FreedosMicroPython.Wget.Sockets
open FreedosMicroPython.Ssh.Client (Str)

/-! ## The command line -/

structure Opts where
  out : Option Str := none
  verify : Bool := false
  caCerts : Option Str := none
  url : Option Str := none
  deriving DecidableEq

inductive Parsed where
  | opts (o : Opts)
  | help
  | unknownFlag (a : Str)
  deriving DecidableEq

def plainArg (o : Opts) (a : Str) : Parsed :=
  if a = str "--verify" then .opts { o with verify := true }
  else if a = str "-h" ∨ a = str "--help" then .help
  else if str "-" <+: a then .unknownFlag a
  else .opts { o with url := some a }

def parseArgs (o : Opts) : List Str → Parsed
  | [] => .opts o
  | [a] => plainArg o a
  | a :: v :: rest =>
      if a = str "-O" then parseArgs { o with out := some v } rest
      else if a = str "--ca-certs" then parseArgs { o with caCerts := some v, verify := true } rest
      else
        match plainArg o a with
        | .opts o => parseArgs o (v :: rest)
        | done => done

/-! ## main -/

variable {Addr : Type} (net : Net Addr) (cuts : Nat → Nat → Nat)

def isOSError : Exn → Bool
  | .osError _ | .osErrorRepr _ _ | .osErrorNum _ _ | .errno _ => true
  | .valueError | .unicodeError | .typeError => false

def print (s : Str) : Prog Unit := beside fun m => { m with out := m.out ++ s ++ str "\n" }

def writeErr (s : Str) : Prog Unit := beside fun m => { m with err := m.err ++ s }

def usage : Str := str "usage: wget.py [-O OUT] [--verify] [--ca-certs CA.PEM] URL"

theorem defaultBufSize_pos : 0 < 4096 := by decide

def Opts.args (o : Opts) : Args where
  out := o.out
  headers := []
  verify := o.verify
  caCerts := o.caCerts
  bufSize := 4096
  maxRedirects := 5
  bufSize_pos := defaultBufSize_pos

/-- `main`, where `strError` is `str(e)` of an exception. -/
def main (strError : Exn → Str) (argv : List Str) : Prog Int :=
  match parseArgs {} argv with
  | .help => do
      print usage
      pure 0
  | .unknownFlag a => do
      writeErr (str "unknown flag: " ++ a ++ str "\n")
      pure 2
  | .opts o =>
      match o.url with
      | none => do
          writeErr (usage ++ str "\n")
          pure 2
      | some url => do
          let fetched ← tryExcept
            (do
              let r ← Sockets.fetch net o.args cuts url
              pure (some r))
            fun e =>
              if isOSError e then
                some do
                  writeErr (str "wget: " ++ strError e ++ str "\n")
                  pure none
              else none
          match fetched with
          | none => pure 1
          | some r => do
              print (str "wrote " ++ Sftp.strInt r.total ++ str " bytes to " ++ r.path)
              pure 0

/-! ## The grammar of the arguments -/

/-- An option with its value, or a URL. -/
inductive Arg where
  | out (path : Str)
  | verify
  | caCerts (file : Str)
  | url (u : Str)

def Arg.render : Arg → List Str
  | .out path => [str "-O", path]
  | .verify => [str "--verify"]
  | .caCerts file => [str "--ca-certs", file]
  | .url u => [u]

def Arg.Plain : Arg → Prop
  | .url u => ¬ str "-" <+: u
  | _ => True

def Arg.set (o : Opts) : Arg → Opts
  | .out path => { o with out := some path }
  | .verify => { o with verify := true }
  | .caCerts file => { o with caCerts := some file, verify := true }
  | .url u => { o with url := some u }

/-- An option that `main` does not know, or one whose value is missing. -/
def Stops : List Str → Prop
  | [] => False
  | a :: rest =>
      str "-" <+: a ∧ a ≠ str "--verify" ∧ ((a = str "-O" ∨ a = str "--ca-certs") → rest = [])

def stopped (a : Str) : Parsed :=
  if a = str "-h" ∨ a = str "--help" then .help else .unknownFlag a

theorem parseArgs_plainArg (o : Opts) {a : Str} {rest : List Str}
    (h : (a = str "-O" ∨ a = str "--ca-certs") → rest = []) :
    parseArgs o (a :: rest) =
      match plainArg o a with
      | .opts o => parseArgs o rest
      | done => done := by
  cases rest with
  | nil =>
      rw [parseArgs]
      cases plainArg o a <;> rfl
  | cons v rest =>
      have ha : ¬ a = str "-O" ∧ ¬ a = str "--ca-certs" :=
        not_or.mp fun hvalue => List.cons_ne_nil v rest (h hvalue)
      rw [parseArgs, if_neg ha.1, if_neg ha.2]

theorem plainArg_url (o : Opts) {u : Str} (hu : ¬ str "-" <+: u) :
    plainArg o u = .opts { o with url := some u } := by
  have hne : ∀ s, str "-" <+: s → u ≠ s := fun s hs heq => hu (heq ▸ hs)
  have hhelp : ¬ (u = str "-h" ∨ u = str "--help") :=
    not_or.mpr ⟨hne _ (by decide), hne _ (by decide)⟩
  rw [plainArg, if_neg (hne _ (by decide)), if_neg hhelp, if_neg hu]

theorem parseArgs_render (o : Opts) (i : Arg) (rest : List Str) (hi : i.Plain) :
    parseArgs o (i.render ++ rest) = parseArgs (i.set o) rest := by
  cases i with
  | out path => exact if_pos rfl
  | verify => exact parseArgs_plainArg o fun hvalue => absurd hvalue (by decide)
  | caCerts file => exact if_neg (by decide)
  | url u =>
      have hne : ∀ s, str "-" <+: s → u ≠ s := fun s hs heq => hi (heq ▸ hs)
      refine (parseArgs_plainArg o fun hvalue => ?_).trans ?_
      · exact absurd hvalue (not_or.mpr ⟨hne _ (by decide), hne _ (by decide)⟩)
      · rw [plainArg_url o hi]
        rfl

theorem parseArgs_stops (o : Opts) {a : Str} {rest : List Str} (h : Stops (a :: rest)) :
    parseArgs o (a :: rest) = stopped a := by
  obtain ⟨hdash, hverify, hvalue⟩ := h
  rw [parseArgs_plainArg o hvalue, plainArg, if_neg hverify, stopped]
  by_cases hhelp : a = str "-h" ∨ a = str "--help"
  · rw [if_pos hhelp, if_pos hhelp]
  · rw [if_neg hhelp, if_neg hhelp, if_pos hdash]

theorem Arg.cut (argv : List Str) :
    argv = [] ∨ Stops argv ∨ ∃ i rest, Arg.Plain i ∧ argv = i.render ++ rest := by
  cases argv with
  | nil => exact .inl rfl
  | cons a rest =>
      by_cases hdash : str "-" <+: a
      · by_cases hverify : a = str "--verify"
        · exact .inr (.inr ⟨.verify, rest, trivial, by rw [hverify]; rfl⟩)
        · by_cases hvalue : (a = str "-O" ∨ a = str "--ca-certs") → rest = []
          · exact .inr (.inl ⟨hdash, hverify, hvalue⟩)
          · obtain ⟨hoption, hrest⟩ := Classical.not_imp.mp hvalue
            obtain ⟨v, rest, rfl⟩ := List.exists_cons_of_ne_nil hrest
            obtain rfl | rfl := hoption
            · exact .inr (.inr ⟨.out v, rest, trivial, rfl⟩)
            · exact .inr (.inr ⟨.caCerts v, rest, trivial, rfl⟩)
      · exact .inr (.inr ⟨.url a, rest, hdash, rfl⟩)

theorem Arg.not_stops {i : Arg} {rest : List Str} (hi : i.Plain) : ¬ Stops (i.render ++ rest) := by
  intro h
  cases i with
  | out path => exact List.cons_ne_nil path rest (h.2.2 (.inl rfl))
  | verify => exact h.2.1 rfl
  | caCerts file => exact List.cons_ne_nil file rest (h.2.2 (.inr rfl))
  | url u => exact hi h.1

theorem Arg.render_inj {i j : Arg} {xs ys : List Str} (hi : i.Plain) (hj : j.Plain)
    (h : i.render ++ xs = j.render ++ ys) : i = j := by
  -- the first argument tells an option from the others and from a URL
  cases i <;> cases j <;> obtain ⟨hhead, htail⟩ := List.cons.inj h
  case out.out => rw [(List.cons.inj htail).1]
  case caCerts.caCerts => rw [(List.cons.inj htail).1]
  case verify.verify => rfl
  case url.url => rw [hhead]
  all_goals first
    | exact absurd hhead (by decide)
    | exact absurd (by rw [hhead]; decide) hi
    | exact absurd (by rw [← hhead]; decide) hj

def grammar : Grammar Str Arg where
  render := Arg.render
  Plain := Arg.Plain
  Stops := Stops
  render_ne_nil {i} _ := by cases i <;> simp [Arg.render]
  cut := Arg.cut
  render_inj := Arg.render_inj
  not_stops := Arg.not_stops
  not_stops_nil := id

def meaning (o : Opts) : List Str → Parsed
  | [] => .opts o
  | a :: _ => stopped a

theorem parseArgs_divides {argv : List Str} {args : List Arg} {tail : List Str}
    (h : grammar.Divides argv args tail) :
    parseArgs {} argv = meaning (args.foldl Arg.set {}) tail := by
  have hrun : parseArgs {} argv = parseArgs (args.foldl Arg.set {}) tail :=
    h.run (fun o i rest hi => parseArgs_render o i rest hi) {}
  rw [hrun]
  cases tail with
  | nil => rfl
  | cons a rest =>
      obtain hnil | hstops := h.tail
      · cases hnil
      · exact parseArgs_stops _ hstops

theorem verify_foldl (args : List Arg) (o : Opts) :
    (args.foldl Arg.set o).verify = true ↔
      o.verify = true ∨ ∃ i ∈ args, i = .verify ∨ ∃ file, i = .caCerts file := by
  induction args generalizing o with
  | nil => simp
  | cons i args ih =>
      rw [List.foldl_cons, ih]
      cases i <;> simp [Arg.set]

/-- Every command line divides into options and URLs in one way, up to its end or to the first
argument that is neither, and that decides what it means. The server is verified exactly if one of
these options asks for it. -/
theorem parseArgs_grammar (argv : List Str) :
    ∃ args tail, grammar.Divides argv args tail ∧
      (∀ args' tail', grammar.Divides argv args' tail' → args' = args ∧ tail' = tail) ∧
      parseArgs {} argv = meaning (args.foldl Arg.set {}) tail ∧
      ((args.foldl Arg.set {}).verify = true ↔
        ∃ i ∈ args, i = .verify ∨ ∃ file, i = .caCerts file) := by
  obtain ⟨args, tail, hdivides⟩ := grammar.exists_divides argv
  refine ⟨args, tail, hdivides, fun args' tail' h => h.unique hdivides,
    parseArgs_divides hdivides, ?_⟩
  simpa using verify_foldl args {}

/-! ## How main ends -/

/-- What a run of `main` comes to, with what it leaves open. -/
inductive Exits (strError : Exn → Str) (argv : List Str) (m : Machine) :
    End Exn Int → List Nat → Machine → Prop where
  | help (h : parseArgs {} argv = .help) :
      Exits strError argv m (.value 0) [] { m with out := m.out ++ usage ++ str "\n" }
  | unknown {a : Str} (h : parseArgs {} argv = .unknownFlag a) :
      Exits strError argv m (.value 2) []
        { m with err := m.err ++ (str "unknown flag: " ++ a ++ str "\n") }
  | noUrl {o : Opts} (h : parseArgs {} argv = .opts o) (hurl : o.url = none) :
      Exits strError argv m (.value 2) [] { m with err := m.err ++ (usage ++ str "\n") }
  | saved {o : Opts} {url : Str} {r : Result} {d : Disk} (h : parseArgs {} argv = .opts o)
      (hurl : o.url = some url)
      (hfetch : Wget.fetch net.world o.args cuts url m.disk = (.ok r, d)) :
      Exits strError argv m (.value 0) [] { m with
        disk := d
        out := m.out ++ (str "wrote " ++ Sftp.strInt r.total ++ str " bytes to " ++ r.path) ++
          str "\n" }
  | failed {o : Opts} {url : Str} {e : Exn} {d : Disk} {ys : List Nat}
      (h : parseArgs {} argv = .opts o) (hurl : o.url = some url)
      (hfetch : Wget.fetch net.world o.args cuts url m.disk = (.error e, d))
      (he : isOSError e = true) (hys : ys.length ≤ 1) :
      Exits strError argv m (.value 1) ys { m with
        disk := d
        err := m.err ++ (str "wget: " ++ strError e ++ str "\n") }
  | raised {o : Opts} {url : Str} {e : Exn} {d : Disk} {ys : List Nat}
      (h : parseArgs {} argv = .opts o) (hurl : o.url = some url)
      (hfetch : Wget.fetch net.world o.args cuts url m.disk = (.error e, d))
      (he : isOSError e = false) (hys : ys.length ≤ 1) :
      Exits strError argv m (.raised e) ys { m with disk := d }

variable {m : Machine}

/-- How `fetch` ends, with what it leaves open. -/
theorem fetch_does (hclose : net.ssl = false → ∀ k, net.close k = none) (o : Opts) (url : Str)
    {r : Except Exn Result} {d : Disk}
    (hfetch : Wget.fetch net.world o.args cuts url m.disk = (r, d)) :
    Does [] m (Sockets.fetch net o.args cuts url) fun r' ys t =>
      r' = ending r ∧ (ys.length ≤ 1 ∧ (r.isOk = true → ys = [])) ∧ t = { m with disk := d } := by
  refine (fetchFrom_does net o.args cuts hclose _ 0 url).post fun r' ys t ⟨hr, ht, hlen⟩ => ?_
  change r' = ending (Wget.fetch net.world o.args cuts url m.disk).1 at hr
  change t = { m with disk := (Wget.fetch net.world o.args cuts url m.disk).2 } at ht
  rw [hfetch] at hr ht
  refine ⟨hr, ⟨hlen.trans_le (Bool.toNat_le _), fun hok => ?_⟩, ht⟩
  cases r with
  | error e => cases hok
  | ok result =>
      rw [leaks_of_ok net o.args cuts hfetch] at hlen
      exact List.length_eq_zero_iff.mp hlen

theorem main_does (hclose : net.ssl = false → ∀ k, net.close k = none) (strError : Exn → Str)
    (argv : List Str) :
    Does [] m (main net cuts strError argv) (Exits net cuts strError argv m) := by
  unfold main
  split
  · next hparsed => exact does_beside_bind (does_pure (.help hparsed))
  · next a hparsed => exact does_beside_bind (does_pure (.unknown hparsed))
  · next o hparsed =>
    split
    · next hurl => exact does_beside_bind (does_pure (.noUrl hparsed hurl))
    · next url hurl =>
      rcases hend : Wget.fetch net.world o.args cuts url m.disk with ⟨e | result, d⟩ <;>
        have hfetch := fetch_does net cuts hclose o url hend
      · have hbody : Does [] m (do
            let r ← Sockets.fetch net o.args cuts url
            pure (some r)) fun r ys t => r = .raised e ∧ ys.length ≤ 1 ∧ t = { m with disk := d } :=
          Does.bind_raised hfetch fun ys t ⟨⟨hlen, _⟩, ht⟩ => ⟨rfl, hlen, ht⟩
        cases he : isOSError e with
        | false =>
            refine Does.bind_raised (Does.except_passed hbody ?_ fun ys t ht => ⟨rfl, ht⟩) ?_
            · rintro e' he'
              cases he'
              simp [he]
            · rintro ys t ⟨hlen, rfl⟩
              exact .raised hparsed hurl hend he hlen
        | true =>
            refine Does.bind_value (x := none) (S := fun ys t => ys.length ≤ 1 ∧ t = { m with
              disk := d
              err := m.err ++ (str "wget: " ++ strError e ++ str "\n") })
              (Does.except_caught hbody (if_pos he) ?_) ?_
            · rintro ys t ⟨hlen, rfl⟩
              exact does_beside_bind (does_pure ⟨rfl, hlen, rfl⟩)
            · rintro ys t ⟨hlen, rfl⟩
              exact does_pure (.failed hparsed hurl hend he hlen)
      · have hbody : Does [] m (do
            let r ← Sockets.fetch net o.args cuts url
            pure (some r)) fun r ys t =>
              r = .value (some result) ∧ ys = [] ∧ t = { m with disk := d } :=
          Does.bind_value hfetch fun ys t ⟨⟨_, hys⟩, ht⟩ => does_pure ⟨rfl, hys rfl, ht⟩
        refine Does.bind_value (Does.except_passed hbody (by simp) fun ys t ht => ⟨rfl, ht⟩) ?_
        rintro ys t ⟨rfl, rfl⟩
        exact does_beside_bind (does_pure (.saved hparsed hurl hend))

/-- The answer that a command line brings into a file. -/
def Downloads (argv : List Str) (r : Answer) (sink : Str) : Prop :=
  ∃ o url via, parseArgs {} argv = .opts o ∧ o.url = some url ∧
    final net.world o.args url = .answered via r ∧ Saved net.world o.args r ∧
    sink = sinkOf o.args r.target.path

/-- A command line that asks for nothing to be fetched, and what is written about it. -/
def Refuses (argv : List Str) (message : Str) : Prop :=
  (∃ a, parseArgs {} argv = .unknownFlag a ∧ message = str "unknown flag: " ++ a ++ str "\n") ∨
    ∃ o, parseArgs {} argv = .opts o ∧ o.url = none ∧ message = usage ++ str "\n"

/-- The `fetch` of a command line raises `e`. -/
def Raises (argv : List Str) (d : Disk) (e : Exn) : Prop :=
  ∃ o url, parseArgs {} argv = .opts o ∧ o.url = some url ∧
    (Wget.fetch net.world o.args cuts url d).1 = .error e

theorem fetch_of_answered {w : World} {args : Args} {url : Str} {via : List Str} {r : Answer}
    (hfinal : final w args url = .answered via r) (hsaved : Saved w args r) (d : Disk) :
    Wget.fetch w args cuts url d =
      (.ok ⟨200, r.body.length, sinkOf args r.target.path⟩,
        (d.create (sinkOf args r.target.path)).write (sinkOf args r.target.path) r.link.context
          r.body) := by
  rw [fetch_eq_finish, hfinal, finish]
  simp only [hsaved.1, hsaved.2]
  rfl

theorem files_written (d : Disk) (sink file : Str) (context : Option Context) (body : List UInt8) :
    ((d.create sink).write sink context body).files file =
      if file = sink then some body else d.files file := by
  by_cases hfile : file = sink
  · simp [Disk.write, Disk.create, hfile]
  · simp [Disk.write, Disk.create, hfile]

section Exits

variable {strError : Exn → Str} {argv : List Str} {ys : List Nat} {m' : Machine}
  {result : End Exn Int}

theorem Exits.of_downloads {r : Answer} {sink : Str}
    (h : Exits net cuts strError argv m result ys m') (hr : Downloads net argv r sink) :
    result = .value 0 ∧ ys = [] ∧ m' = { m with
      disk := (m.disk.create sink).write sink r.link.context r.body
      out := m.out ++ (str "wrote " ++ Sftp.strInt r.body.length ++ str " bytes to " ++ sink) ++
        str "\n" } := by
  obtain ⟨o, url, via, hparsed, hurl, hfinal, hsaved, rfl⟩ := hr
  have hfetched := fetch_of_answered cuts hfinal hsaved m.disk
  cases h with
  | help h => simp [hparsed] at h
  | unknown h => simp [hparsed] at h
  | noUrl h hnone =>
      obtain rfl : o = _ := Parsed.opts.inj (hparsed.symm.trans h)
      simp [hurl] at hnone
  | saved h hsome hfetch =>
      obtain rfl : o = _ := Parsed.opts.inj (hparsed.symm.trans h)
      obtain rfl : url = _ := Option.some.inj (hurl.symm.trans hsome)
      rw [hfetched] at hfetch
      cases hfetch
      exact ⟨rfl, rfl, rfl⟩
  | failed h hsome hfetch =>
      obtain rfl : o = _ := Parsed.opts.inj (hparsed.symm.trans h)
      obtain rfl : url = _ := Option.some.inj (hurl.symm.trans hsome)
      rw [hfetched] at hfetch
      cases hfetch
  | raised h hsome hfetch =>
      obtain rfl : o = _ := Parsed.opts.inj (hparsed.symm.trans h)
      obtain rfl : url = _ := Option.some.inj (hurl.symm.trans hsome)
      rw [hfetched] at hfetch
      cases hfetch

theorem Exits.downloads (h : Exits net cuts strError argv m (.value 0) ys m') :
    parseArgs {} argv = .help ∨ ∃ r sink, Downloads net argv r sink := by
  cases h with
  | help h => exact .inl h
  | saved h hurl hfetch =>
      rw [fetch_eq_finish] at hfetch
      obtain ⟨via, r, hfinal, hopen, hend, -, -⟩ := finish_ok hfetch
      exact .inr ⟨r, _, _, _, via, h, hurl, hfinal, ⟨hopen, hend⟩, rfl⟩

theorem Exits.of_help (h : Exits net cuts strError argv m result ys m')
    (hhelp : parseArgs {} argv = .help) :
    result = .value 0 ∧ ys = [] ∧ m' = { m with out := m.out ++ usage ++ str "\n" } := by
  cases h with
  | help => exact ⟨rfl, rfl, rfl⟩
  | unknown h | noUrl h | saved h | failed h | raised h =>
      rw [hhelp] at h
      cases h

theorem Exits.of_refuses {message : Str} (h : Exits net cuts strError argv m result ys m')
    (hr : Refuses argv message) :
    result = .value 2 ∧ ys = [] ∧ m' = { m with err := m.err ++ message } := by
  rcases hr with ⟨a, hparsed, rfl⟩ | ⟨o, hparsed, hurl, rfl⟩
  · cases h with
    | unknown h =>
        obtain rfl : a = _ := Parsed.unknownFlag.inj (hparsed.symm.trans h)
        exact ⟨rfl, rfl, rfl⟩
    | help h | noUrl h | saved h | failed h | raised h =>
        rw [hparsed] at h
        cases h
  · cases h with
    | noUrl h => exact ⟨rfl, rfl, rfl⟩
    | help h | unknown h =>
        rw [hparsed] at h
        cases h
    | saved h hsome | failed h hsome | raised h hsome =>
        obtain rfl : o = _ := Parsed.opts.inj (hparsed.symm.trans h)
        rw [hurl] at hsome
        cases hsome

theorem Exits.refuses (h : Exits net cuts strError argv m (.value 2) ys m') :
    ∃ message, Refuses argv message := by
  cases h with
  | unknown h => exact ⟨_, .inl ⟨_, h, rfl⟩⟩
  | noUrl h hurl => exact ⟨_, .inr ⟨_, h, hurl, rfl⟩⟩

/-- What `main` comes to where `fetch` raises: an `OSError` is reported, and everything else
passes. -/
theorem Exits.of_raises {e : Exn} (h : Exits net cuts strError argv m result ys m')
    (hr : Raises net cuts argv m.disk e) :
    m'.out = m.out ∧
      (isOSError e = true → result = .value 1 ∧
        m'.err = m.err ++ (str "wget: " ++ strError e ++ str "\n")) ∧
      (isOSError e = false → result = .raised e ∧ m'.err = m.err) := by
  obtain ⟨o, url, hparsed, hurl, hraised⟩ := hr
  have hsame : ∀ {o' : Opts} {url' : Str}, parseArgs {} argv = .opts o' → o'.url = some url' →
      (Wget.fetch net.world o'.args cuts url' m.disk).1 = .error e := by
    intro o' url' h' hurl'
    obtain rfl : o = o' := Parsed.opts.inj (hparsed.symm.trans h')
    obtain rfl : url = url' := Option.some.inj (hurl.symm.trans hurl')
    exact hraised
  cases h with
  | help h | unknown h =>
      rw [hparsed] at h
      cases h
  | noUrl h hnone =>
      obtain rfl : o = _ := Parsed.opts.inj (hparsed.symm.trans h)
      rw [hurl] at hnone
      cases hnone
  | saved h hsome hfetch =>
      have hfetched := hsame h hsome
      rw [hfetch] at hfetched
      cases hfetched
  | failed h hsome hfetch he =>
      have hfetched := hsame h hsome
      rw [hfetch] at hfetched
      cases hfetched
      exact ⟨rfl, fun _ => ⟨rfl, rfl⟩, fun hnot => absurd (he.symm.trans hnot) (by decide)⟩
  | raised h hsome hfetch he =>
      have hfetched := hsame h hsome
      rw [hfetch] at hfetched
      cases hfetched
      exact ⟨rfl, fun hyes => absurd (he.symm.trans hyes) (by decide), fun _ => ⟨rfl, rfl⟩⟩

theorem Exits.raises_of_one (h : Exits net cuts strError argv m (.value 1) ys m') :
    ∃ e, Raises net cuts argv m.disk e ∧ isOSError e = true := by
  cases h with
  | failed h hurl hfetch he => exact ⟨_, ⟨_, _, h, hurl, congrArg Prod.fst hfetch⟩, he⟩

theorem Exits.raises_of_raised {e : Exn} (h : Exits net cuts strError argv m (.raised e) ys m') :
    Raises net cuts argv m.disk e ∧ isOSError e = false := by
  cases h with
  | raised h hurl hfetch he => exact ⟨⟨_, _, h, hurl, congrArg Prod.fst hfetch⟩, he⟩

theorem Exits.status (h : Exits net cuts strError argv m result ys m') :
    (∃ n, (n = 0 ∨ n = 1 ∨ n = 2) ∧ result = .value n) ∨
      ∃ e, isOSError e = false ∧ result = .raised e := by
  cases h with
  | help h => exact .inl ⟨0, .inl rfl, rfl⟩
  | unknown h => exact .inl ⟨2, .inr (.inr rfl), rfl⟩
  | noUrl h hurl => exact .inl ⟨2, .inr (.inr rfl), rfl⟩
  | saved h hurl hfetch => exact .inl ⟨0, .inl rfl, rfl⟩
  | failed h hurl hfetch he => exact .inl ⟨1, .inr (.inl rfl), rfl⟩
  | raised h hurl hfetch he => exact .inr ⟨_, he, rfl⟩

theorem Exits.length_le (h : Exits net cuts strError argv m result ys m') : ys.length ≤ 1 := by
  cases h with
  | help h => exact Nat.zero_le 1
  | unknown h => exact Nat.zero_le 1
  | noUrl h hurl => exact Nat.zero_le 1
  | saved h hurl hfetch => exact Nat.zero_le 1
  | failed h hurl hfetch he hlen => exact hlen
  | raised h hurl hfetch he hlen => exact hlen

end Exits

/-- `main` returns 0 exactly where it was asked for help or the chain of redirects ends in an
answer that can be saved. Help is printed, and nothing else done; of an answer the file has exactly
the body, every other file is as it was, what is printed is the length of the body and the name of
the file, and nothing is left open. It returns 2 exactly where there is nothing to fetch, and does
nothing but write that to `sys.stderr`; 1 exactly where `fetch` raises an `OSError`, whose text it
writes there; and every other exception that `fetch` raises passes through it. -/
theorem main_tells_truth (hclose : net.ssl = false → ∀ k, net.close k = none)
    (strError : Exn → Str) (argv : List Str) {h : Heap} {xs : List Nat} (hopen : Holds xs h)
    (m : Machine) :
    let run := main net cuts strError argv (h, m)
    (run.1 = .value 0 ↔ parseArgs {} argv = .help ∨ ∃ r sink, Downloads net argv r sink) ∧
      (parseArgs {} argv = .help →
        Holds xs run.2.1 ∧ run.2.2 = { m with out := m.out ++ usage ++ str "\n" }) ∧
      (∀ r sink, Downloads net argv r sink → Holds xs run.2.1 ∧
        (∀ file, run.2.2.disk.files file =
          if file = sink then some r.body else m.disk.files file) ∧
        run.2.2.out = m.out ++
          (str "wrote " ++ Sftp.strInt r.body.length ++ str " bytes to " ++ sink) ++ str "\n" ∧
        run.2.2.err = m.err) ∧
      (run.1 = .value 2 ↔ ∃ message, Refuses argv message) ∧
      (∀ message, Refuses argv message →
        Holds xs run.2.1 ∧ run.2.2 = { m with err := m.err ++ message }) ∧
      (run.1 = .value 1 ↔ ∃ e, Raises net cuts argv m.disk e ∧ isOSError e = true) ∧
      (∀ e, run.1 = .raised e ↔ Raises net cuts argv m.disk e ∧ isOSError e = false) ∧
      (∀ e, Raises net cuts argv m.disk e → run.2.2.out = m.out ∧ run.2.2.err =
        if isOSError e = true then m.err ++ (str "wget: " ++ strError e ++ str "\n") else m.err) ∧
      ((∃ n, (n = 0 ∨ n = 1 ∨ n = 2) ∧ run.1 = .value n) ∨
        ∃ e, isOSError e = false ∧ run.1 = .raised e) ∧
      ∃ ys, ys.length ≤ 1 ∧ Holds (ys ++ xs) run.2.1 := by
  obtain ⟨ys, hys, hexits⟩ := main_does net cuts hclose strError argv xs (h, m) ⟨hopen, rfl⟩
  intro run
  change Exits net cuts strError argv m run.1 ys run.2.2 at hexits
  change Holds (ys ++ xs) run.2.1 at hys
  refine ⟨⟨fun hzero => ?_, ?_⟩, fun hhelp => ?_, fun r sink hr => ?_, ⟨fun htwo => ?_, ?_⟩,
    fun message hr => ?_, ⟨fun hone => ?_, ?_⟩, fun e => ⟨fun hraised => ?_, ?_⟩, fun e hr => ?_,
    hexits.status, ys, hexits.length_le, hys⟩
  · rw [hzero] at hexits
    exact hexits.downloads
  · rintro (hhelp | ⟨r, sink, hr⟩)
    · exact (hexits.of_help net cuts hhelp).1
    · exact (hexits.of_downloads net cuts hr).1
  · obtain ⟨-, rfl, hm⟩ := hexits.of_help net cuts hhelp
    exact ⟨hys, hm⟩
  · obtain ⟨-, rfl, hm⟩ := hexits.of_downloads net cuts hr
    refine ⟨hys, fun file => ?_, by rw [hm], by rw [hm]⟩
    rw [hm]
    exact files_written m.disk sink file r.link.context r.body
  · rw [htwo] at hexits
    exact hexits.refuses
  · rintro ⟨message, hr⟩
    exact (hexits.of_refuses net cuts hr).1
  · obtain ⟨-, rfl, hm⟩ := hexits.of_refuses net cuts hr
    exact ⟨hys, hm⟩
  · rw [hone] at hexits
    exact hexits.raises_of_one
  · rintro ⟨e, hr, he⟩
    exact ((hexits.of_raises net cuts hr).2.1 he).1
  · rw [hraised] at hexits
    exact hexits.raises_of_raised
  · rintro ⟨hr, he⟩
    exact ((hexits.of_raises net cuts hr).2.2 he).1
  · obtain ⟨hout, hyes, hno⟩ := hexits.of_raises net cuts hr
    refine ⟨hout, ?_⟩
    cases he : isOSError e with
    | true => exact (hyes he).2
    | false => exact (hno he).2

def greeting : String := "HTTP/1.0 200 OK\r\n\r\nhi"

def served : Answer where
  target := splitUrl (str "http://a/f")
  link := ⟨⟨str greeting, .closed, fun _ => none⟩, none⟩
  hdrs := []
  body := str "hi"

theorem main_tells_truth_greeting :
    let run := main (plainNet [greeting]) (fun _ _ => 1) (fun _ => [])
      [str "-O", str "out", str "http://a/f"] (Heap.empty fun _ => true, noOutput)
    run.1 = .value 0 ∧ run.2.2.disk.files (str "out") = some (str "hi") ∧
      run.2.2.out = str "wrote 2 bytes to out\n" ∧ Holds [] run.2.1 := by
  have hdownloads : Downloads (plainNet [greeting]) [str "-O", str "out", str "http://a/f"] served
      (str "out") := by
    refine ⟨{ out := some (str "out"), url := some (str "http://a/f") }, _, [], ?_, rfl, rfl,
      ⟨rfl, rfl⟩, rfl⟩
    decide
  obtain ⟨hzero, -, hsaved, -⟩ := main_tells_truth (plainNet [greeting]) (fun _ _ => 1)
    (fun _ _ => rfl) (fun _ => []) [str "-O", str "out", str "http://a/f"]
    (holds_empty fun _ => true) noOutput
  obtain ⟨hopen, hfiles, hout, -⟩ := hsaved served (str "out") hdownloads
  refine ⟨hzero.mpr (.inr ⟨served, _, hdownloads⟩), (hfiles _).trans (if_pos rfl), ?_, hopen⟩
  rw [hout]
  decide

end FreedosMicroPython.Wget.Program
