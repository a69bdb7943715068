import FreedosMicroPython.Net.Ne2k
/-!
# The receive ring of the NE2000

What the driver's polls make of the packets that the card queues. The driver keeps
BNRY one page behind the next packet; the card may use the pages from CURR up to
BNRY. The first theorem is about a card that keeps the rules of the ring, the second
about any content of its memory.
-/

namespace FreedosMicroPython.Net.Ne2k

open FreedosMicroPython.Lib FreedosMicroPython.Lib.Memory FreedosMicroPython.Lib.Runs

/-! ## What the card queues -/

/-- A packet as it lies in the ring: `rest` is what the card stores behind the body. -/
structure Packet where
  status : UInt8
  body : List UInt8
  rest : List UInt8
  pages : Nat
  fits : 4 + body.length + rest.length ≤ 256 * pages

namespace Packet

variable (p : Packet)

def header (nextPage : Nat) : List UInt8 :=
  [p.status, UInt8.ofNat nextPage, UInt8.ofNat ((p.body.length + 4) % 256),
    UInt8.ofNat ((p.body.length + 4) / 256)]

def bytes (nextPage : Nat) : List UInt8 := p.header nextPage ++ p.body ++ p.rest

def good : Bool := p.status.toNat &&& 0x01 ≠ 0

def delivered : Bool := p.good && p.body ≠ []

end Packet

/-- The card stores a packet at CURR and moves CURR to the page after it. -/
def Nic.queue (p : Packet) (nic : Nic) : Nic :=
  let nextPage := rxRing.ahead nic.curr p.pages
  { nic with
    mem := dmaRing.store nic.mem (256 * nic.curr) (p.bytes nextPage)
    page1 := Function.update nic.page1 NE_CURR nextPage
    isr := nic.isr ||| 0x01 }

/-- The number of pages from CURR up to BNRY, which the card may use. -/
def Nic.room (nic : Nic) : Nat := rxRing.distance nic.curr nic.bnry

inductive Event where
  | queue (p : Packet)
  | poll (maxlen : Nat) (out : Mem UInt8)

def step (s : State) : Event → State
  | .queue p => { s with nic := s.nic.queue p }
  | .poll maxlen out => (ne2kPollRx maxlen out s).2.2

/-- What the card and the caller keep to: no packet is larger than the buffers, or than
the room in the ring, and the buffers have an even size. -/
def Allowed (largest : Nat) (s : State) : Event → Prop
  | .queue p => p.body.length ≤ largest ∧ p.pages ≤ s.nic.room
  | .poll maxlen _ => maxlen % 2 = 0 ∧ largest ≤ maxlen

instance (largest : Nat) (s : State) : (e : Event) → Decidable (Allowed largest s e)
  | .queue _ => inferInstanceAs (Decidable (_ ∧ _))
  | .poll _ _ => inferInstanceAs (Decidable (_ ∧ _))

def result (s : State) : Event → List (List UInt8)
  | .queue _ => []
  | .poll maxlen out =>
      let (len, out, _) := ne2kPollRx maxlen out s
      if len = 0 then [] else [slice out 0 len]

def queuedBy : Event → List Packet
  | .queue p => [p]
  | .poll _ _ => []

def queued (es : List Event) : List Packet := es.flatMap queuedBy

/-- The driver's own test. -/
def Empty (nic : Nic) : Prop := nextPktPage nic.bnry = nic.curr

instance (nic : Nic) : Decidable (Empty nic) := inferInstanceAs (Decidable (_ = _))

def taken (s : State) : Event → List Unit
  | .queue _ => []
  | .poll _ _ => if Empty s.nic then [] else [()]

def results (s : State) (es : List Event) : List (List UInt8) := emitted step result s es

def drained (s : State) (es : List Event) : Nat := (emitted step taken s es).length

def bodies (ps : List Packet) : List (List UInt8) := (ps.filter Packet.delivered).map Packet.body

/-! ## What the ring holds -/

def totalPages (q : List Packet) : Nat := (q.map Packet.pages).sum

/-- The packets lie in the memory one after the other, the first at `page`. -/
def Stored (mem : Mem UInt8) : Nat → List Packet → Prop
  | _, [] => True
  | page, p :: q =>
      dmaRing.load mem (256 * page) (4 + p.body.length) =
        p.header (rxRing.ahead page p.pages) ++ p.body ∧
      Stored mem (rxRing.ahead page p.pages) q

structure Holds (q : List Packet) (s : State) : Prop where
  initialized : s.initialized = true
  cr : s.nic.cr < 0x40
  bnry : rxRing.Inside s.nic.bnry
  curr : s.nic.curr = rxRing.ahead (rxRing.next s.nic.bnry) (totalPages q)
  total : totalPages q < rxRing.size
  stored : Stored s.nic.mem (rxRing.next s.nic.bnry) q

theorem Packet.pages_pos (p : Packet) : 0 < p.pages := by
  have := p.fits
  omega

theorem mul_ahead {a : Nat} (ha : rxRing.Inside a) (k : Nat) :
    256 * rxRing.ahead a k = dmaRing.ahead (256 * a) (256 * k) := by
  have hstart : rxRing.start ≤ a := ha.1
  have hmod := Nat.mul_mod_mul_left 256 (a - 0x46 + k) 58
  show 256 * (0x46 + (a - 0x46 + k) % 58) = 0x4600 + (256 * a - 0x4600 + 256 * k) % 0x3A00
  rw [show 256 * a - 0x4600 + 256 * k = 256 * (a - 0x46 + k) by omega,
    show (0x3A00 : Nat) = 256 * 58 from rfl, hmod, Nat.mul_add]

theorem inside_mul {a : Nat} (ha : rxRing.Inside a) : dmaRing.Inside (256 * a) := by
  obtain ⟨hge, hlt⟩ := ha
  constructor
  · show 0x4600 ≤ 256 * a
    have hge : 0x46 ≤ a := hge
    omega
  · show 256 * a < 0x4600 + 0x3A00
    have hlt : a < 0x46 + 58 := hlt
    omega

theorem nextPktPage_eq {bnry : Nat} (h : rxRing.Inside bnry) :
    nextPktPage bnry = rxRing.next bnry := by
  have hlt : bnry < 0x46 + 58 := h.2
  show (if 0x80 ≤ bnry + 1 then 0x46 else bnry + 1) =
    if bnry + 1 = 0x46 + 58 then 0x46 else bnry + 1
  by_cases hwrap : bnry + 1 = 0x80
  · simp [hwrap]
  · rw [if_neg (by omega), if_neg (by omega)]

/-! ## The card queues a packet -/

theorem stored_append {mem : Mem UInt8} {page : Nat} (q : List Packet) (p : Packet)
    (hq : Stored mem page q)
    (hp : Stored mem (rxRing.ahead page (totalPages q)) [p]) (hpage : rxRing.Inside page) :
    Stored mem page (q ++ [p]) := by
  induction q generalizing page with
  | nil =>
      rw [show totalPages [] = 0 from rfl, Ring.ahead_zero hpage] at hp
      exact hp
  | cons p' q ih =>
      refine ⟨hq.1, ih hq.2 ?_ (rxRing.inside_ahead page p'.pages)⟩
      rw [Ring.ahead_ahead]
      exact hp

/-- A packet behind the others leaves them as they are. -/
theorem stored_store {mem : Mem UInt8} {page : Nat} (hpage : rxRing.Inside page) {q : List Packet}
    (hq : Stored mem page q) {xs : List UInt8} {n : Nat} (hxs : xs.length ≤ 256 * n)
    (hfit : totalPages q + n ≤ rxRing.size) :
    Stored (dmaRing.store mem (256 * rxRing.ahead page (totalPages q)) xs) page q := by
  induction q generalizing page n with
  | nil => trivial
  | cons p q ih =>
      have htotal : totalPages (p :: q) = p.pages + totalPages q := rfl
      have hsize : rxRing.size = 58 := rfl
      have hdma : dmaRing.size = 256 * 58 := rfl
      have hp := p.fits
      refine ⟨?_, ?_⟩
      · rw [mul_ahead hpage, Ring.load_store_ahead mem (inside_mul hpage) (by omega) (by omega)]
        exact hq.1
      · rw [htotal, ← Ring.ahead_ahead]
        exact ih (rxRing.inside_ahead page p.pages) hq.2 hxs (by omega)

theorem stored_queue (mem : Mem UInt8) {page : Nat} (hpage : rxRing.Inside page) (p : Packet)
    (hfit : p.pages ≤ rxRing.size) :
    Stored (dmaRing.store mem (256 * page) (p.bytes (rxRing.ahead page p.pages))) page [p] := by
  refine ⟨?_, trivial⟩
  have hp := p.fits
  have hsize : rxRing.size = 58 := rfl
  have hdma : dmaRing.size = 256 * 58 := rfl
  have hlen : (p.bytes (rxRing.ahead page p.pages)).length =
      4 + p.body.length + p.rest.length := by
    simp [Packet.bytes, Packet.header]
    omega
  have hload := Ring.load_store mem (inside_mul hpage)
    (show (p.bytes (rxRing.ahead page p.pages)).length ≤ dmaRing.size by omega)
  rw [hlen] at hload
  have htake := Ring.take_load
    (dmaRing.store mem (256 * page) (p.bytes (rxRing.ahead page p.pages))) (inside_mul hpage)
    (show 4 + p.body.length ≤ 4 + p.body.length + p.rest.length by omega)
  rw [← htake, hload, Packet.bytes, List.take_append_of_le_length (by simp [Packet.header]; omega),
    List.take_of_length_le (by simp [Packet.header]; omega)]

/-- CURR is as far behind BNRY as pages are free. -/
theorem Holds.room {q : List Packet} {s : State} (h : Holds q s) :
    s.nic.room + totalPages q + 1 = rxRing.size := by
  have hnext := Ring.next_eq h.bnry
  have htotal := h.total
  have hsize : rxRing.size = 58 := rfl
  have hback : rxRing.ahead s.nic.curr (57 - totalPages q) = s.nic.bnry := by
    rw [h.curr, hnext, Ring.ahead_ahead, Ring.ahead_ahead,
      show 1 + (totalPages q + (57 - totalPages q)) = rxRing.size by omega]
    exact Ring.ahead_size h.bnry
  have hcurr : rxRing.Inside s.nic.curr := by
    rw [h.curr]
    exact rxRing.inside_ahead _ _
  have hdist := Ring.distance_ahead hcurr (show 57 - totalPages q < rxRing.size by omega)
  rw [hback] at hdist
  rw [Nic.room, hdist]
  omega

theorem Holds.empty_iff {q : List Packet} {s : State} (h : Holds q s) : Empty s.nic ↔ q = [] := by
  have hnext := Ring.inside_next h.bnry
  have hzero := Ring.ahead_zero hnext
  rw [Empty, nextPktPage_eq h.bnry, h.curr]
  constructor
  · intro heq
    have htotal := Ring.ahead_inj rxRing.pos h.total (hzero.trans heq)
    cases q with
    | nil => rfl
    | cons p q =>
        have hpos := p.pages_pos
        have hsum : totalPages (p :: q) = p.pages + totalPages q := rfl
        omega
  · rintro rfl
    exact hzero.symm

theorem Holds.queue {q : List Packet} {s : State} (h : Holds q s) {p : Packet}
    (hroom : p.pages ≤ s.nic.room) : Holds (q ++ [p]) (step s (.queue p)) := by
  have hfree := h.room
  have hfirst := Ring.inside_next h.bnry
  have hcurr : rxRing.Inside s.nic.curr := by
    rw [h.curr]
    exact rxRing.inside_ahead _ _
  have htotal : totalPages (q ++ [p]) = totalPages q + p.pages := by simp [totalPages]
  have hxs : (p.bytes (rxRing.ahead s.nic.curr p.pages)).length ≤ 256 * p.pages := by
    have hp := p.fits
    simp [Packet.bytes, Packet.header]
    omega
  refine ⟨h.initialized, h.cr, h.bnry, ?_, by omega, ?_⟩
  · show Function.update s.nic.page1 NE_CURR (rxRing.ahead s.nic.curr p.pages) NE_CURR = _
    rw [Function.update_self, h.curr, Ring.ahead_ahead, htotal]
    rfl
  · refine stored_append q p ?_ ?_ hfirst
    · have hkeep := stored_store hfirst h.stored hxs (by omega)
      rw [← h.curr] at hkeep
      exact hkeep
    · have hnew := stored_queue s.nic.mem hcurr p (by omega)
      show Stored _ (rxRing.ahead (rxRing.next s.nic.bnry) (totalPages q)) [p]
      rw [← h.curr]
      exact hnew

/-! ## The driver polls -/

theorem low_or_high (n : Nat) : n % 256 ||| ((n / 256) <<< 8) = n := by
  have hlow : n % 256 < 2 ^ 8 := Nat.mod_lt _ (by decide)
  rw [Nat.or_comm, ← Nat.shiftLeft_add_eq_or_of_lt hlow, Nat.shiftLeft_eq]
  omega

theorem readHeader_header (p : Packet) {nextPage : Nat} (hpage : nextPage < 256)
    (hlen : p.body.length + 4 < 0x10000) :
    readHeader (p.header nextPage) = ⟨p.status.toNat, nextPage, p.body.length + 4⟩ := by
  have hhigh : (p.body.length + 4) / 256 < 256 := by omega
  simp only [readHeader, Packet.header, List.getD_cons_zero, List.getD_cons_succ,
    UInt8.toNat_ofNat', Nat.mod_eq_of_lt hpage, Nat.mod_eq_of_lt hhigh, Nat.mod_mod, Nat.reducePow,
    low_or_high]

theorem Holds.headerAt {p : Packet} {q : List Packet} {s : State} (h : Holds (p :: q) s) :
    Ne2k.headerAt s.nic =
      ⟨p.status.toNat, rxRing.ahead (rxRing.next s.nic.bnry) p.pages, p.body.length + 4⟩ := by
  have hfirst := Ring.inside_next h.bnry
  have hnext : rxRing.ahead (rxRing.next s.nic.bnry) p.pages < 0x46 + 58 :=
    (rxRing.inside_ahead _ _).2
  have hfits := p.fits
  have htotal := h.total
  have hpages : totalPages (p :: q) = p.pages + totalPages q := rfl
  have hsize : rxRing.size = 58 := rfl
  have htake := Ring.take_load s.nic.mem (inside_mul hfirst) (show 4 ≤ 4 + p.body.length by omega)
  rw [h.stored.1, show (4 : Nat) = (p.header (rxRing.ahead (rxRing.next s.nic.bnry) p.pages)).length
    from rfl, List.take_left] at htake
  rw [Ne2k.headerAt, nextPktPage_eq h.bnry, Nat.mul_comm,
    ← readHeader_header p (by omega) (by omega), htake]
  rfl

theorem copyLen_header (p : Packet) (nextPage : Nat) {maxlen : Nat}
    (hlen : p.body.length ≤ maxlen) :
    copyLen ⟨p.status.toNat, nextPage, p.body.length + 4⟩ maxlen =
      if p.delivered then p.body.length else 0 := by
  have hcut : (if 4 < p.body.length + 4 then p.body.length + 4 - 4 else 0) = p.body.length := by
    split <;> omega
  unfold copyLen
  dsimp only
  rw [hcut, if_neg (show ¬maxlen < p.body.length by omega)]
  simp [Packet.delivered, Packet.good, List.length_pos_iff, and_comm]

theorem Holds.inside_body {q : List Packet} {s : State} (h : Holds q s) :
    dmaRing.Inside (nextPktPage s.nic.bnry * 256 + 4) := by
  obtain ⟨hge, hlt⟩ := Ring.inside_next h.bnry
  have hge : 0x46 ≤ rxRing.next s.nic.bnry := hge
  have hlt : rxRing.next s.nic.bnry < 0x46 + 58 := hlt
  rw [nextPktPage_eq h.bnry]
  constructor
  · show 0x4600 ≤ rxRing.next s.nic.bnry * 256 + 4
    omega
  · show rxRing.next s.nic.bnry * 256 + 4 < 0x4600 + 0x3A00
    omega

theorem Holds.load_body {p : Packet} {q : List Packet} {s : State} (h : Holds (p :: q) s) :
    dmaRing.load s.nic.mem (nextPktPage s.nic.bnry * 256 + 4) p.body.length = p.body := by
  have hfirst := Ring.inside_next h.bnry
  have happ := Ring.load_append s.nic.mem (inside_mul hfirst) 4 p.body.length
  rw [h.stored.1] at happ
  have hbody := (List.append_inj happ rfl).2
  have hstart : dmaRing.ahead (256 * rxRing.next s.nic.bnry) 4 =
      nextPktPage s.nic.bnry * 256 + 4 := by
    obtain ⟨hge, hlt⟩ := hfirst
    have hge : 0x46 ≤ rxRing.next s.nic.bnry := hge
    have hlt : rxRing.next s.nic.bnry < 0x46 + 58 := hlt
    show 0x4600 + (256 * rxRing.next s.nic.bnry - 0x4600 + 4) % 0x3A00 = _
    rw [nextPktPage_eq h.bnry, Nat.mod_eq_of_lt (by omega)]
    omega
  rw [hstart] at hbody
  exact hbody.symm

/-- The page that a poll leaves in BNRY is the one before the next packet. -/
theorem next_bnryAfter {nextPage : Nat} (h : rxRing.Inside nextPage) :
    rxRing.Inside (bnryAfter nextPage % 256) ∧
      rxRing.next (bnryAfter nextPage % 256) = nextPage := by
  obtain ⟨hge, hlt⟩ := h
  have hge : 0x46 ≤ nextPage := hge
  have hlt : nextPage < 0x46 + 58 := hlt
  by_cases hstart : nextPage = 0x46
  · subst hstart
    decide
  · have hval : bnryAfter nextPage % 256 = nextPage - 1 := by
      rw [bnryAfter, if_neg (show ¬nextPage = RX_PAGE_START from hstart)]
      omega
    rw [hval]
    refine ⟨⟨show 0x46 ≤ nextPage - 1 by omega, show nextPage - 1 < 0x46 + 58 by omega⟩, ?_⟩
    have hwrap : ¬nextPage - 1 + 1 = rxRing.stop := by
      show ¬nextPage - 1 + 1 = 0x46 + 58
      omega
    rw [Ring.next, if_neg hwrap]
    omega

theorem Holds.poll_empty {s : State} (h : Holds [] s) (maxlen : Nat) (out : Mem UInt8) :
    result s (.poll maxlen out) = [] ∧ Holds [] (step s (.poll maxlen out)) := by
  obtain ⟨nic, hsame, hpoll⟩ :=
    ne2kPollRx_of_empty h.initialized h.cr (h.empty_iff.mpr rfl) maxlen out
  have hbnry : nic.bnry = s.nic.bnry := congrFun hsame.page0 NE_BNRY
  have hcurr : nic.curr = s.nic.curr := congrFun hsame.page1 NE_CURR
  refine ⟨by rw [result, hpoll]; rfl, ?_⟩
  rw [step, hpoll]
  refine ⟨h.initialized, hsame.cr, ?_, ?_, h.total, trivial⟩
  · show rxRing.Inside nic.bnry
    rw [hbnry]
    exact h.bnry
  · show nic.curr = rxRing.ahead (rxRing.next nic.bnry) (totalPages [])
    rw [hcurr, hbnry]
    exact h.curr

/-- A poll of a ring that holds a packet delivers its body if it is to be delivered, and
takes the packet off. -/
theorem Holds.poll_packet {p : Packet} {q : List Packet} {s : State} (h : Holds (p :: q) s)
    {maxlen : Nat} (hlen : p.body.length ≤ maxlen) (out : Mem UInt8) :
    result s (.poll maxlen out) = bodies [p] ∧ Holds q (step s (.poll maxlen out)) := by
  have hpacket : nextPktPage s.nic.bnry ≠ s.nic.curr := fun hempty =>
    List.cons_ne_nil p q (h.empty_iff.mp hempty)
  obtain ⟨nic, hcr, hpage0, hpage1, hmem, hpoll⟩ :=
    ne2kPollRx_of_packet h.initialized h.cr hpacket maxlen out
  rw [h.headerAt, copyLen_header p _ hlen] at hpoll
  rw [h.headerAt] at hpage0
  constructor
  · rw [result, hpoll]
    dsimp only
    cases hdel : p.delivered with
    | false => simp [bodies, hdel]
    | true =>
        have hne : p.body ≠ [] := by
          have hboth := Bool.and_eq_true_iff.mp hdel
          simpa using hboth.2
        have hpos : p.body.length ≠ 0 := fun h0 => hne (List.length_eq_zero_iff.mp h0)
        have hwords : p.body.length ≤ 2 * ((p.body.length + 1) / 2) := by omega
        simp only [if_true, if_neg hpos, bodies, hdel, List.filter_cons_of_pos, List.filter_nil,
          List.map_cons, List.map_nil]
        rw [slice_blit_of_le out 0 (by simpa using hwords),
          Ring.take_load s.nic.mem h.inside_body hwords, h.load_body]
  · rw [step, hpoll]
    have hnext := next_bnryAfter (rxRing.inside_ahead (rxRing.next s.nic.bnry) p.pages)
    have hbnry : nic.bnry =
        bnryAfter (rxRing.ahead (rxRing.next s.nic.bnry) p.pages) % 256 := by
      rw [Nic.bnry, hpage0, Function.update_self]
    have hcurr : nic.curr = s.nic.curr := congrFun hpage1 NE_CURR
    have htotal : totalPages (p :: q) = p.pages + totalPages q := rfl
    have hsize := h.total
    refine ⟨h.initialized, hcr, ?_, ?_, by omega, ?_⟩
    · show rxRing.Inside nic.bnry
      rw [hbnry]
      exact hnext.1
    · show nic.curr = rxRing.ahead (rxRing.next nic.bnry) (totalPages q)
      rw [hbnry, hnext.2, hcurr, h.curr, htotal, Ring.ahead_ahead]
    · show Stored nic.mem (rxRing.next nic.bnry) q
      rw [hbnry, hnext.2, hmem]
      exact h.stored.2

/-! ## Runs -/

theorem Ready.holds {s : State} (h : Ready s) : Holds [] s where
  initialized := h.initialized
  cr := h.cr
  bnry := by
    rw [h.bnry]
    decide
  curr := by
    rw [h.curr, h.bnry]
    rfl
  total := by decide
  stored := trivial

theorem bodies_append (ps qs : List Packet) : bodies (ps ++ qs) = bodies ps ++ bodies qs := by
  simp [bodies]

/-- What the polls of a run have returned, and what the ring holds after it. -/
structure Delivered (q : List Packet) (s : State) (es : List Event) : Prop where
  le : drained s es ≤ (q ++ queued es).length
  results : Ne2k.results s es = bodies ((q ++ queued es).take (drained s es))
  holds : Holds ((q ++ queued es).drop (drained s es)) (run step s es)

theorem Delivered.queue {p : Packet} {q : List Packet} {s : State} {es : List Event}
    (h : Delivered (q ++ [p]) (step s (.queue p)) es) : Delivered q s (.queue p :: es) := by
  have hsplit : q ++ queued (.queue p :: es) = (q ++ [p]) ++ queued es := by
    simp [queued, queuedBy]
  exact ⟨hsplit ▸ h.le, hsplit ▸ h.results, hsplit ▸ h.holds⟩

theorem Delivered.poll_empty {s : State} {es : List Event} {maxlen : Nat} {out : Mem UInt8}
    (hresult : result s (.poll maxlen out) = []) (htaken : taken s (.poll maxlen out) = [])
    (h : Delivered [] (step s (.poll maxlen out)) es) :
    Delivered [] s (.poll maxlen out :: es) := by
  refine ⟨?_, ?_, ?_⟩
  · rw [drained, emitted, htaken]
    exact h.le
  · rw [Ne2k.results, emitted, hresult, drained, emitted, htaken]
    exact h.results
  · rw [drained, emitted, htaken]
    exact h.holds

theorem Delivered.poll_packet {p : Packet} {q : List Packet} {s : State} {es : List Event}
    {maxlen : Nat} {out : Mem UInt8} (hresult : result s (.poll maxlen out) = bodies [p])
    (htaken : taken s (.poll maxlen out) = [()])
    (h : Delivered q (step s (.poll maxlen out)) es) :
    Delivered (p :: q) s (.poll maxlen out :: es) := by
  have hqueued : queued (.poll maxlen out :: es) = queued es := rfl
  have hdrained : drained s (.poll maxlen out :: es) =
      drained (step s (.poll maxlen out)) es + 1 := by
    rw [drained, emitted, htaken, List.length_append, List.length_singleton, Nat.add_comm]
    rfl
  refine ⟨?_, ?_, ?_⟩
  · rw [hdrained, hqueued, List.cons_append, List.length_cons]
    exact Nat.succ_le_succ h.le
  · rw [hdrained, hqueued, List.cons_append, List.take_succ_cons, Ne2k.results, emitted, hresult]
    have hcons := bodies_append [p]
      ((q ++ queued es).take (drained (step s (.poll maxlen out)) es))
    exact (congrArg (bodies [p] ++ ·) h.results).trans hcons.symm
  · rw [hdrained, hqueued, List.cons_append, List.drop_succ_cons]
    exact h.holds

theorem Holds.delivered {largest : Nat} {q : List Packet} {s : State} (h : Holds q s)
    (hq : ∀ p ∈ q, p.body.length ≤ largest) {es : List Event}
    (hok : Meets step (Allowed largest) s es) : Delivered q s es := by
  induction es generalizing q s with
  | nil => exact ⟨by simp [drained, emitted], by simp [Ne2k.results, drained, emitted, bodies],
      by simpa [drained, emitted, queued] using h⟩
  | cons e es ih =>
      obtain ⟨hallowed, hrest⟩ := hok
      cases e with
      | queue p =>
          have hq' : ∀ p' ∈ q ++ [p], p'.body.length ≤ largest := by
            intro p' hp'
            rcases List.mem_append.mp hp' with hp' | hp'
            · exact hq p' hp'
            · rw [List.mem_singleton.mp hp']
              exact hallowed.1
          exact (ih (h.queue hallowed.2) hq' hrest).queue
      | poll maxlen out =>
          cases q with
          | nil =>
              obtain ⟨hresult, hholds⟩ := h.poll_empty maxlen out
              have htaken : taken s (.poll maxlen out) = [] := if_pos (h.empty_iff.mpr rfl)
              exact .poll_empty hresult htaken (ih hholds (by simp) hrest)
          | cons p q =>
              have hbody := (hq p (by simp)).trans hallowed.2
              obtain ⟨hresult, hholds⟩ := h.poll_packet hbody out
              have htaken : taken s (.poll maxlen out) = [()] :=
                if_neg fun hempty => List.cons_ne_nil p q (h.empty_iff.mp hempty)
              exact .poll_packet hresult htaken
                (ih hholds (fun p' hp' => hq p' (by simp [hp'])) hrest)

/-- A poll returns 0 on an empty ring without moving BNRY, and writes nothing to `out`
from `maxlen` on. -/
def PollSafe (maxlen : Nat) (out : Mem UInt8) (s : State) : Prop :=
  (Empty s.nic → (ne2kPollRx maxlen out s).1 = 0 ∧
    (ne2kPollRx maxlen out s).2.2.nic.bnry = s.nic.bnry) ∧
  ∀ i, maxlen ≤ i → (ne2kPollRx maxlen out s).2.1 i = out i

theorem copyLen_le (hdr : Header) (maxlen : Nat) : copyLen hdr maxlen ≤ maxlen := by
  unfold copyLen
  dsimp only
  split_ifs <;> omega

theorem pollSafe {s : State} (hinit : s.initialized = true) (hcr : s.nic.cr < 0x40) {maxlen : Nat}
    (heven : maxlen % 2 = 0) (out : Mem UInt8) : PollSafe maxlen out s := by
  by_cases hempty : Empty s.nic
  · obtain ⟨nic, hsame, hpoll⟩ := ne2kPollRx_of_empty hinit hcr hempty maxlen out
    refine ⟨fun _ => ?_, fun i _ => by rw [hpoll]⟩
    rw [hpoll]
    exact ⟨rfl, congrFun hsame.page0 NE_BNRY⟩
  · refine ⟨fun h => absurd h hempty, fun i hi => ?_⟩
    obtain ⟨nic, -, -, -, -, hpoll⟩ := ne2kPollRx_of_packet hinit hcr hempty maxlen out
    have hle := copyLen_le (headerAt s.nic) maxlen
    rw [hpoll]
    dsimp only
    refine blit_of_le out ?_
    rw [Ring.length_load]
    omega

/-- From its initialisation on, the driver returns the bodies of the good packets in the
order in which the card queued them, each once; a run that leaves the ring empty has
returned all of them. -/
theorem results_fifo (s₀ : State) (largest : Nat) (es : List Event)
    (hok : Meets step (Allowed largest) (ne2kInitDirect s₀).2.2 es) :
    drained (ne2kInitDirect s₀).2.2 es ≤ (queued es).length ∧
    results (ne2kInitDirect s₀).2.2 es =
      bodies ((queued es).take (drained (ne2kInitDirect s₀).2.2 es)) ∧
    (Empty (run step (ne2kInitDirect s₀).2.2 es).nic ↔
      drained (ne2kInitDirect s₀).2.2 es = (queued es).length) ∧
    ∀ pre maxlen out post, es = pre ++ .poll maxlen out :: post →
      PollSafe maxlen out (run step (ne2kInitDirect s₀).2.2 pre) := by
  have hholds := (ready_ne2kInitDirect s₀).holds
  have hall := hholds.delivered (by simp) hok
  refine ⟨hall.le, hall.results, ?_, ?_⟩
  · rw [hall.holds.empty_iff, List.drop_eq_nil_iff]
    exact ⟨fun h => Nat.le_antisymm hall.le h, fun h => h ▸ le_refl _⟩
  · rintro pre maxlen out post rfl
    obtain ⟨hpre, hpoll, -⟩ := (meets_append step).mp hok
    have hstate := (hholds.delivered (by simp) hpre).holds
    exact pollSafe hstate.initialized hstate.cr hpoll.1 out

def powerOn : State := ⟨⟨0, 0, 0, 0, fun _ => 0, fun _ => 0, fun _ => 0⟩, false, [], 0⟩

def damagedSecond : List Event :=
  [.queue ⟨0x01, [0xAA, 0xBB], [0, 0], 1, by decide⟩, .queue ⟨0x02, [0xCC], [], 1, by decide⟩,
    .poll 2 fun _ => 0, .poll 2 fun _ => 0]

theorem results_fifo_damagedSecond :
    results (ne2kInitDirect powerOn).2.2 damagedSecond =
      bodies ((queued damagedSecond).take (drained (ne2kInitDirect powerOn).2.2 damagedSecond)) :=
  (results_fifo powerOn 2 damagedSecond (by decide)).2.1

/-! ## Headers of any content -/

/-- A poll, and what the card shows it: CURR and the memory. -/
structure Turn where
  curr : Nat
  mem : Mem UInt8
  maxlen : Nat
  out : Mem UInt8

def Turn.card (t : Turn) (nic : Nic) : Nic :=
  { nic with page1 := Function.update nic.page1 NE_CURR t.curr, mem := t.mem }

def turn (s : State) (t : Turn) : State :=
  (ne2kPollRx t.maxlen t.out { s with nic := t.card s.nic }).2.2

def headerReads (s : State) (t : Turn) : List Nat :=
  if Empty (t.card s.nic) then [] else [nextPktPage s.nic.bnry]

def bnryWrites (s : State) (t : Turn) : List Nat :=
  if Empty (t.card s.nic) then [] else [(turn s t).nic.bnry]

/-- The header that a poll is about to read names a page of the ring as the next one, or
the one behind its end. -/
def NextInside (s : State) (t : Turn) : Prop :=
  ¬Empty (t.card s.nic) →
    RX_PAGE_START ≤ (headerAt (t.card s.nic)).nextPage ∧
      (headerAt (t.card s.nic)).nextPage ≤ RX_PAGE_STOP

theorem turn_spec {s : State} (hinit : s.initialized = true) (hcr : s.nic.cr < 0x40) (t : Turn) :
    (turn s t).initialized = true ∧ (turn s t).nic.cr < 0x40 ∧
      (turn s t).nic.bnry =
        if Empty (t.card s.nic) then s.nic.bnry
        else bnryAfter (headerAt (t.card s.nic)).nextPage % 256 := by
  by_cases hempty : Empty (t.card s.nic)
  · obtain ⟨nic, hsame, hpoll⟩ := ne2kPollRx_of_empty (s := { s with nic := t.card s.nic })
      hinit hcr hempty t.maxlen t.out
    rw [turn, hpoll, if_pos hempty]
    exact ⟨hinit, hsame.cr, congrFun hsame.page0 NE_BNRY⟩
  · obtain ⟨nic, hcr', hpage0, -, -, hpoll⟩ :=
      ne2kPollRx_of_packet (s := { s with nic := t.card s.nic }) hinit hcr hempty t.maxlen t.out
    rw [turn, hpoll, if_neg hempty]
    refine ⟨hinit, hcr', ?_⟩
    show nic.page0 NE_BNRY = _
    rw [hpage0, Function.update_self]

theorem inside_bnryAfter_iff {nextPage : Nat} (h : nextPage < 256) :
    rxRing.Inside (bnryAfter nextPage % 256) ↔
      RX_PAGE_START ≤ nextPage ∧ nextPage ≤ RX_PAGE_STOP := by
  have hval : bnryAfter nextPage % 256 =
      if nextPage = 0x46 then 0x7F else (nextPage + 255) % 256 := by
    unfold bnryAfter RX_PAGE_START RX_PAGE_STOP
    split_ifs <;> omega
  rw [hval]
  show (0x46 ≤ _ ∧ _ < 0x46 + 58) ↔ 0x46 ≤ nextPage ∧ nextPage ≤ 0x80
  split_ifs <;> omega

theorem nextPage_lt (nic : Nic) : (headerAt nic).nextPage < 256 := UInt8.toNat_lt _

theorem inside_iff_meets {s : State} (hinit : s.initialized = true) (hcr : s.nic.cr < 0x40)
    (hbnry : rxRing.Inside s.nic.bnry) (ts : List Turn) :
    (∀ page ∈ emitted turn bnryWrites s ts, rxRing.Inside page) ∧
        (∀ page ∈ emitted turn headerReads s ts, rxRing.Inside page) ↔
      Meets turn NextInside s ts := by
  induction ts generalizing s with
  | nil => simp [emitted, Meets]
  | cons t ts ih =>
      obtain ⟨hinit', hcr', hwrite⟩ := turn_spec hinit hcr t
      by_cases hempty : Empty (t.card s.nic)
      · rw [if_pos hempty] at hwrite
        have hrest := ih hinit' hcr' (hwrite ▸ hbnry)
        have hok : NextInside s t := fun h => absurd hempty h
        rw [emitted, emitted, bnryWrites, headerReads, if_pos hempty, if_pos hempty,
          List.nil_append, List.nil_append, hrest, Meets]
        exact (and_iff_right hok).symm
      · rw [if_neg hempty] at hwrite
        have hiff := inside_bnryAfter_iff (nextPage_lt (t.card s.nic))
        rw [← hwrite] at hiff
        have hread : rxRing.Inside (nextPktPage s.nic.bnry) := by
          rw [nextPktPage_eq hbnry]
          exact Ring.inside_next hbnry
        rw [emitted, emitted, bnryWrites, headerReads, if_neg hempty, if_neg hempty, Meets,
          NextInside]
        simp only [List.singleton_append, List.forall_mem_cons, hempty, not_false_iff, hread,
          true_and, forall_const, and_assoc]
        rw [hiff, and_assoc]
        exact and_congr_right fun hge => and_congr_right fun hle =>
          ih hinit' hcr' (hiff.mpr ⟨hge, hle⟩)

/-- The polls keep to the ring, in what they write to BNRY and in the headers they read, if
and only if every header they read names a next page from its first one to the one behind
its end. -/
theorem bnryWrites_inside_iff (s₀ : State) (ts : List Turn) :
    (∀ page ∈ emitted turn bnryWrites (ne2kInitDirect s₀).2.2 ts, rxRing.Inside page) ∧
        (∀ page ∈ emitted turn headerReads (ne2kInitDirect s₀).2.2 ts, rxRing.Inside page) ↔
      Meets turn NextInside (ne2kInitDirect s₀).2.2 ts := by
  have hready := ready_ne2kInitDirect s₀
  exact inside_iff_meets hready.initialized hready.cr hready.holds.bnry ts

/-- The header of the first packet names page 0x20. -/
def strayNext : List Turn :=
  let mem : Mem UInt8 := fun a => if a = 0x4701 then 0x20 else 0
  [⟨0x48, mem, 1514, fun _ => 0⟩, ⟨0x48, mem, 1514, fun _ => 0⟩]

theorem not_inside_strayNext :
    (∀ t ∈ strayNext, rxRing.Inside t.curr) ∧
    emitted turn bnryWrites (ne2kInitDirect powerOn).2.2 strayNext = [0x1F, 0xFF] ∧
    emitted turn headerReads (ne2kInitDirect powerOn).2.2 strayNext = [0x47, 0x20] ∧
    ¬((∀ page ∈ emitted turn bnryWrites (ne2kInitDirect powerOn).2.2 strayNext,
        rxRing.Inside page) ∧
      ∀ page ∈ emitted turn headerReads (ne2kInitDirect powerOn).2.2 strayNext,
        rxRing.Inside page) := by
  decide +kernel

end FreedosMicroPython.Net.Ne2k
