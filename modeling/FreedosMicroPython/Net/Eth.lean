import FreedosMicroPython.Lib.Runs
/-!
# Bringing up the eth netif

`uc386dos_eth_start` of `port/lwip_uc386dos.c` under `uc386_net.eth_init`. One flag
says that the netif is there; it is set before DHCP is started, and a call that finds
it set does nothing.
-/

namespace FreedosMicroPython.Net.Eth

open FreedosMicroPython.Lib.Runs

/-- What a call does to lwIP, with the results it looks at. -/
inductive Op where
  | lwipInit
  | netifAdd (added : Bool)
  | setHwaddr (mac : List UInt8)
  | netifSetDefault
  | netifSetUp
  | netifSetLinkUp
  | registerPoll
  | dhcpStart (err : Int)
  deriving DecidableEq, Repr

structure Outcomes where
  netifListed : Bool
  pktdrvInit : Int × List UInt8
  ethdrvInit : Int × List UInt8
  netifAdd : Bool
  dhcpStart : Int

structure State where
  initialised : Bool
  active : Bool
  deriving DecidableEq, Repr

def ERR_OK : Int := 0

def findDriver (o : Outcomes) : Option (List UInt8) :=
  if o.pktdrvInit.1 = 0 then some o.pktdrvInit.2
  else if o.ethdrvInit.1 = 0 then some o.ethdrvInit.2
  else none

def lwipUc386dosInit (o : Outcomes) (s : State) : List Op × State :=
  if s.initialised then ([], s)
  else (if o.netifListed then [] else [.lwipInit], { s with initialised := true })

def uc386dosEthStart (dhcpStartNow : Bool) (o : Outcomes) (s : State) : Int × List Op × State :=
  if s.active then (0, [], s)
  else
    let (ops, s) := lwipUc386dosInit o s
    match findDriver o with
    | none => (-1, ops, s)
    | some mac =>
        if !o.netifAdd then (-2, ops ++ [.netifAdd false], s)
        else
          let ops := ops ++ [.netifAdd true, .setHwaddr mac, .netifSetDefault, .netifSetUp,
            .netifSetLinkUp]
          let s := { s with active := true }
          let ops := ops ++ [.registerPoll]
          if dhcpStartNow then
            (if o.dhcpStart ≠ ERR_OK then -3 else 0, ops ++ [.dhcpStart o.dhcpStart], s)
          else (0, ops, s)

structure Call where
  arg : Option Bool
  outcomes : Outcomes

def Call.dhcp (c : Call) : Bool := c.arg.getD true

def modUc386NetEthInit (c : Call) (s : State) : Int × List Op × State :=
  uc386dosEthStart c.dhcp c.outcomes s

/-! ## Histories -/

/-- The statics, all that was done to lwIP, and what each call asked for and returned. -/
structure History where
  state : State
  ops : List Op
  results : List (Bool × Int)

def boot : History := ⟨⟨false, false⟩, [], []⟩

def step (h : History) (c : Call) : History :=
  let (rc, ops, s) := modUc386NetEthInit c h.state
  ⟨s, h.ops ++ ops, h.results ++ [(c.dhcp, rc)]⟩

def rc (h : History) (c : Call) : Int := (modUc386NetEthInit c h.state).1

/-- The netif was added, made default and set up, in this order. -/
def Attached (ops : List Op) : Prop :=
  [.netifAdd true, .netifSetDefault, .netifSetUp].Sublist ops

/-- How the netif can have come to be there. -/
structure Started (h : History) : Prop where
  attached : Attached h.ops
  dhcp : .dhcpStart ERR_OK ∈ h.ops ∨ (false, 0) ∈ h.results ∨ (true, -3) ∈ h.results

theorem ethInit_cases (c : Call) (s : State) :
    (s.active = true ∧ modUc386NetEthInit c s = (0, [], s)) ∨
      ((modUc386NetEthInit c s).1 < 0 ∧ (modUc386NetEthInit c s).2.2.active = false) ∨
      ∃ ops mac, modUc386NetEthInit c s =
        (if c.dhcp ∧ c.outcomes.dhcpStart ≠ ERR_OK then -3 else 0,
          ops ++ [.netifAdd true, .setHwaddr mac, .netifSetDefault, .netifSetUp,
              .netifSetLinkUp, .registerPoll] ++
            if c.dhcp then [.dhcpStart c.outcomes.dhcpStart] else [],
          ⟨true, true⟩) := by
  cases hactive : s.active with
  | true => exact .inl ⟨rfl, if_pos hactive⟩
  | false =>
      right
      have hinit : (lwipUc386dosInit c.outcomes s).2 = ⟨true, false⟩ := by
        unfold lwipUc386dosInit
        split
        · rename_i hinitialised
          rw [← hinitialised, ← hactive]
        · rw [← hactive]
      unfold modUc386NetEthInit uc386dosEthStart
      rw [if_neg (by simp [hactive])]
      dsimp only
      rw [hinit]
      cases hdriver : findDriver c.outcomes with
      | none => exact .inl ⟨show (-1 : Int) < 0 by decide, rfl⟩
      | some mac =>
          cases hadd : c.outcomes.netifAdd with
          | false => exact .inl ⟨show (-2 : Int) < 0 by decide, rfl⟩
          | true =>
              refine .inr ⟨(lwipUc386dosInit c.outcomes s).1, mac, ?_⟩
              cases c.dhcp <;> simp

theorem attached_append (before after : List Op) (mac : List UInt8) :
    Attached (before ++ ([.netifAdd true, .setHwaddr mac, .netifSetDefault, .netifSetUp,
      .netifSetLinkUp, .registerPoll] ++ after)) := by
  refine List.Sublist.trans ?_ (List.sublist_append_right before _)
  refine List.Sublist.trans ?_ (List.sublist_append_left _ after)
  exact .cons_cons _ (.cons _ (.cons_cons _ (.cons_cons _ (List.nil_sublist _))))

theorem Started.mono {h h' : History} (hs : Started h) (hops : h.ops <+: h'.ops)
    (hresults : h.results <+: h'.results) : Started h' where
  attached := hs.attached.trans hops.sublist
  dhcp := hs.dhcp.imp (hops.subset ·) (Or.imp (hresults.subset ·) (hresults.subset ·))

theorem step_prefix (h : History) (c : Call) :
    h.ops <+: (step h c).ops ∧ h.results <+: (step h c).results :=
  ⟨List.prefix_append _ _, List.prefix_append _ _⟩

theorem started_step {h : History} (hs : h.state.active = true → Started h) (c : Call)
    (hactive : (step h c).state.active = true) : Started (step h c) := by
  obtain ⟨hops, hresults⟩ := step_prefix h c
  rcases ethInit_cases c h.state with ⟨hthere, -⟩ | ⟨-, hfailed⟩ | ⟨ops, mac, hup⟩
  · exact (hs hthere).mono hops hresults
  · rw [show (step h c).state = (modUc386NetEthInit c h.state).2.2 from rfl, hfailed] at hactive
    exact absurd hactive (by decide)
  · constructor
    · rw [step, hup]
      dsimp only
      rw [List.append_assoc ops, ← List.append_assoc h.ops]
      exact attached_append _ _ mac
    · rw [step, hup]
      dsimp only
      cases hdhcp : c.dhcp with
      | false => exact .inr (.inl (by simp))
      | true =>
          by_cases herr : c.outcomes.dhcpStart = ERR_OK
          · left
            simp [herr]
          · right
            right
            simp [herr]

theorem started_run (cs : List Call) :
    (run step boot cs).state.active = true → Started (run step boot cs) := by
  have hstep : ∀ h c, (h.state.active = true → Started h) → True →
      (step h c).state.active = true → Started (step h c) := fun _ c hs _ => started_step hs c
  have hany : Meets step (fun _ _ => True) boot cs :=
    meets_of_forall step (fun _ _ => trivial) boot cs
  exact run_invariant step hstep (fun hactive => absurd hactive (by decide)) hany

/-- Whenever `eth_init` with DHCP returns 0, the netif is there; and unless an earlier call
failed in `dhcp_start`, DHCP was started, or an earlier `eth_init` without it returned 0. -/
theorem ethInit_zero (cs : List Call) (c : Call) (hdhcp : c.dhcp = true)
    (hrc : rc (run step boot cs) c = 0) :
    Attached (run step boot (cs ++ [c])).ops ∧
      ((true, -3) ∉ (run step boot cs).results →
        .dhcpStart ERR_OK ∈ (run step boot (cs ++ [c])).ops ∨
          (false, 0) ∈ (run step boot cs).results) := by
  have hstep : run step boot (cs ++ [c]) = step (run step boot cs) c := List.foldl_append
  obtain ⟨hops, -⟩ := step_prefix (run step boot cs) c
  rw [hstep]
  rcases ethInit_cases c (run step boot cs).state with
    ⟨hthere, -⟩ | ⟨hfailed, -⟩ | ⟨ops, mac, hup⟩
  · have hs := started_run cs hthere
    refine ⟨hs.attached.trans hops.sublist, fun hnone => ?_⟩
    rcases hs.dhcp with hstarted | hwithout | hfailed
    · exact .inl (hops.subset hstarted)
    · exact .inr hwithout
    · exact absurd hfailed hnone
  · rw [rc] at hrc
    omega
  · have hactive : (step (run step boot cs) c).state.active = true := by
      rw [step, hup]
    have hok : c.outcomes.dhcpStart = ERR_OK := by
      rw [rc, hup] at hrc
      by_contra herr
      simp [hdhcp, herr] at hrc
    refine ⟨(started_step (started_run cs) c hactive).attached, fun _ => .inl ?_⟩
    rw [step, hup]
    simp [hdhcp, hok]

def allWell : Outcomes := ⟨false, (0, [2, 0, 0, 0, 0, 1]), (0, []), true, ERR_OK⟩

theorem ethInit_zero_noArgument :
    Attached (run step boot ([] ++ [⟨none, allWell⟩])).ops ∧
      ((true, -3) ∉ (run step boot []).results →
        .dhcpStart ERR_OK ∈ (run step boot ([] ++ [⟨none, allWell⟩])).ops ∨
          (false, 0) ∈ (run step boot []).results) :=
  ethInit_zero [] ⟨none, allWell⟩ rfl (by decide)

/-- Without DHCP first, then with it: 0, and DHCP is not started. -/
theorem not_dhcpStart_second :
    rc (run step boot [⟨some false, allWell⟩]) ⟨some true, allWell⟩ = 0 ∧
      ∀ err, .dhcpStart err ∉
        (run step boot [⟨some false, allWell⟩, ⟨some true, allWell⟩]).ops := by
  refine ⟨by decide, fun err => ?_⟩
  have hops : (run step boot [⟨some false, allWell⟩, ⟨some true, allWell⟩]).ops =
      [.lwipInit, .netifAdd true, .setHwaddr [2, 0, 0, 0, 0, 1], .netifSetDefault, .netifSetUp,
        .netifSetLinkUp, .registerPoll] := by decide
  rw [hops]
  simp

end FreedosMicroPython.Net.Eth
