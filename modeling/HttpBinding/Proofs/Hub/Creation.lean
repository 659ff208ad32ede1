import Mathlib.Data.Nat.Find
import HttpBinding.Proofs.Body
import HttpBinding.Proofs.Hub.Happenings

/-!
# HttpBinding.Proofs.Hub.Creation

When the first request of a client begins a session, what the hub is like afterwards, and what the
client is told.

* Identifiers are drawn one after the other, and the first one that is not taken is used
  (`draw_of_first`, `draw_of_none`). Nothing is said about where they come from: one may come again.
* What is done to a loose exchange is written down as an equation between hubs (`Alone.serve`), but
  for the jobs: whoever waits for the exchange takes a turn, so only their order changes.
* If the server demands nothing when it is told of a session and asked for its features, then the
  whole beginning is such an equation (`create_of_free`), and so is its failure (`create_of_taken`).

The limits take two ways, into the answer and into the terms of the session. They are compared after
the answer was read the way a client reads it.
-/

namespace HttpBinding.Hub

variable {still : List Nat} {h : Hub} {k : Nat} {id : StreamId} {terms : Terms} {x y : Exchange}

/-! ### Drawing identifiers -/

/-- The first identifier that is not taken is drawn, if there are draws enough to come to it. -/
theorem draw_of_first {draws drawn i : Nat} (hi : i < draws)
    (htaken : ∀ j < i, h.lookup (h.ids (drawn + j)) ≠ none)
    (hfree : h.lookup (h.ids (drawn + i)) = none) :
    h.draw draws drawn = (drawn + i + 1, some (h.ids (drawn + i))) := by
  induction draws generalizing drawn i with
  | zero => exact absurd hi (Nat.not_lt_zero i)
  | succ draws ih =>
      cases i with
      | zero => simp_all [draw]
      | succ i =>
          have hfirst : (h.lookup (h.ids drawn)).isSome = true :=
            Option.isSome_iff_ne_none.mpr (htaken 0 (Nat.succ_pos i))
          -- one draw is spent, and what follows is counted from there
          have hcount : ∀ j, drawn + 1 + j = drawn + (j + 1) := fun j => by omega
          have hrest := @ih (drawn + 1) i (by omega)
            (fun j hj => hcount j ▸ htaken (j + 1) (by omega)) (hcount i ▸ hfree)
          rw [draw, if_pos hfirst, hrest, hcount]

/-- All draws are in vain if every identifier is taken. -/
theorem draw_of_none {draws drawn : Nat}
    (htaken : ∀ i < draws, h.lookup (h.ids (drawn + i)) ≠ none) :
    h.draw draws drawn = (drawn + draws, none) := by
  induction draws generalizing drawn with
  | zero => rfl
  | succ draws ih =>
      have hfirst : (h.lookup (h.ids drawn)).isSome = true :=
        Option.isSome_iff_ne_none.mpr (htaken 0 (Nat.succ_pos draws))
      have hcount : ∀ j, drawn + 1 + j = drawn + (j + 1) := fun j => by omega
      have hrest := @ih (drawn + 1) fun j hj => hcount j ▸ htaken (j + 1) (by omega)
      rw [draw, if_pos hfirst, hrest, hcount]

/-- If an identifier is not taken, there is a first one. -/
theorem exists_first_free {draws drawn : Nat}
    (hsome : ∃ i < draws, h.lookup (h.ids (drawn + i)) = none) :
    ∃ i < draws, h.lookup (h.ids (drawn + i)) = none ∧
      ∀ j < i, h.lookup (h.ids (drawn + j)) ≠ none := by
  obtain ⟨hlt, hfree⟩ := Nat.find_spec hsome
  refine ⟨Nat.find hsome, hlt, hfree, fun j hj hnone => ?_⟩
  exact Nat.find_min hsome hj ⟨Nat.lt_trans hj hlt, hnone⟩

/-! ### A loose exchange -/

/-- `x` is loose, and no other exchange has its key. -/
structure Alone (h : Hub) (x : Exchange) : Prop where
  mem : x ∈ h.loose
  loose : ∀ z ∈ h.loose, z.key = x.key → z = x
  held : ∀ s ∈ h.sessions, ∀ z ∈ s.held, z.key ≠ x.key

theorem Orderly.alone (ho : h.Orderly) (hx : x ∈ h.loose) : h.Alone x :=
  ⟨hx, fun _ hz hkey => ho.eq_of_key (mem_exchanges_of_loose hz) (mem_exchanges_of_loose hx) hkey,
    fun _ hs _ hz => ho.ne_of_held_of_loose hs hz hx⟩

/-- The hub with `y` in the place of the loose exchange that has its key. -/
def replaceLoose (h : Hub) (y : Exchange) : Hub :=
  { h with loose := h.loose.map fun z => if z.key == y.key then y else z }

/-- To replace twice is to replace once. -/
theorem map_replace_twice {xs : List Exchange} (hkey : x.key = y.key) :
    (xs.map fun z => if z.key == x.key then x else z).map
      (fun z => if z.key == y.key then y else z) =
        xs.map fun z => if z.key == y.key then y else z := by
  rw [List.map_map]
  refine List.map_congr_left fun z _ => ?_
  simp only [Function.comp_apply, hkey]
  split <;> simp_all

/-- The exchange in the place of `x` is alone as well. -/
theorem Alone.replace (ha : h.Alone x) (hkey : y.key = x.key) : (h.replaceLoose y).Alone y := by
  refine ⟨List.mem_map.mpr ⟨x, ha.mem, by simp [hkey]⟩, fun z hz hzkey => ?_, fun s hs z hz => ?_⟩
  · obtain ⟨w, hw, rfl⟩ := List.mem_map.mp hz
    split at hzkey
    · rename_i heq
      exact if_pos heq
    · rename_i hne
      exact absurd (by simpa using hzkey) hne
  · rw [hkey]
    exact ha.held s hs z hz

/-- What is done to a loose exchange is done to it where it is. -/
theorem Alone.mapExchange (ha : h.Alone x) {f : Exchange → Exchange} (hkey : (f x).key = x.key) :
    h.mapExchange x.key f = h.replaceLoose (f x) := by
  have hloose : (h.loose.map fun z => if z.key == x.key then f z else z) =
      h.loose.map fun z => if z.key == x.key then f x else z := by
    refine List.map_congr_left fun z hz => ?_
    by_cases hz' : z.key = x.key
    · rw [ha.loose z hz hz']
    · simp [hz']
  rw [mapExchange_of_not_held ha.held, replaceLoose, hkey, hloose]

/-- The server half of a loose exchange acts. -/
theorem Alone.serve (ha : h.Alone x) {f : Exchange → Exchange} (hkey : (f x).key = x.key) :
    ∃ ready parked, (ready ++ parked).Perm (h.ready ++ h.parked) ∧
      h.serve x.key f = { h.replaceLoose (f x) with ready, parked } := by
  simp only [Hub.serve, ha.mapExchange hkey]
  split
  · split
    · exact ⟨_, _, .refl _, rfl⟩
    · exact ⟨_, _, perm_wake (h.replaceLoose (f x)) _, rfl⟩
  · exact ⟨_, _, .refl _, rfl⟩

/-- The requester of a loose exchange leaves. -/
theorem Alone.departRequester (ha : h.Alone x) :
    ∃ ready parked, (ready ++ parked).Perm (h.ready ++ h.parked) ∧
      h.departRequester x.key = { h.replaceLoose x.depart with ready, parked } := by
  simp only [Hub.departRequester, ha.mapExchange (f := Exchange.depart) rfl]
  exact ⟨_, _, perm_wake (h.replaceLoose x.depart) _, rfl⟩

/-! ### Beginning -/

/-- A countdown is started for an open session, and no countdown counts for its identifier. -/
theorem arm_of_not_armed {s : Session Observer} {t : Nat} (hs : h.session? k = some s)
    (hopen : s.shown.closed = false) (hidle : (h.timer t).isArmed s.id = false) :
    ∃ ready parked, (ready ++ parked).Perm (h.ready ++ h.parked) ∧
      h.arm t k = { h with
        timers := h.timers.set t
          ((h.timer t).withOneMore s.id k (h.now + s.terms.inactivityTimeout))
        ready := ready ++ [.evict t (h.timer t).next k]
        parked } := by
  refine ⟨_, _, perm_wake h (Job.isStopped t
    ((h.timer t).withOneMore s.id k (h.now + s.terms.inactivityTimeout))), ?_⟩
  simp only [arm, hs, hopen, Countdowns.arm_of_not_armed hidle, Bool.false_eq_true, if_false]
  rfl

/-- No countdown counts for an identifier that nobody has. -/
theorem Sane.isArmed_of_free (hsane : h.Sane) (hfree : h.lookup id = none) :
    (h.timer registryTimer).isArmed id = false := by
  by_contra harmed
  rw [Bool.not_eq_false, hsane.regular.isArmed_iff] at harmed
  obtain ⟨c, hc, rfl⟩ := harmed
  rw [hsane.lookup_eq_some_iff.mpr (hsane.known c hc)] at hfree
  cases hfree

/-- A new session to which its steward has just come. -/
def newcomer (h : Hub) (id : StreamId) (terms : Terms) : Session Observer :=
  { id, terms, sink := h.sink, observers := [(0, .steward)], nextTicket := 1 }

/-- What is written down when a session begins. -/
def firstEntries (h : Hub) (id : StreamId) (terms : Terms) : List Entry :=
  [⟨h.now, id.text, .created⟩,
    ⟨h.now, id.text, .features terms.wait terms.bound terms.language terms.secure⟩]

theorem call_of_undemanding {c : Call} (hnone : h.server.demands h.calls id c = []) :
    h.call id c = { h with calls := h.calls + 1 } := by
  simp [call, consult, hnone]

/-- The beginning of a session, if the server demands nothing. -/
theorem begin_of_undemanding (hcreated : h.server.demands h.calls id .created = [])
    (hfeatures : h.server.demands (h.calls + 1) id .features = []) (terms : Terms) (key : Nat) :
    h.begin id terms key =
      ((h.withNewborn id (h.newcomer id terms) (h.journal ++ h.firstEntries id terms)
        (h.calls + 2)).serve key fun x =>
          ((x.bind id).deliver (.creation (h.creation (h.newcomer id terms)))).2).arm
            registryTimer h.sessions.length := by
  obtain ⟨s, hs⟩ : ∃ s : Session Observer, s = { id, terms, sink := h.sink } := ⟨_, rfl⟩
  have hannounced : ({ h.addSession s with
      registry := (id, h.sessions.length) :: h.registry }.write id .created).call id .created =
        h.withNewborn id s (h.journal ++ [⟨h.now, id.text, .created⟩]) (h.calls + 1) :=
    call_of_undemanding hcreated
  have hattended : (s.observe .steward).2 = h.newcomer id terms := by
    rw [hs]
    rfl
  have hasked : ((h.withNewborn id (h.newcomer id terms)
      (h.journal ++ [⟨h.now, id.text, .created⟩]) (h.calls + 1)).write id
        (.features terms.wait terms.bound terms.language terms.secure)).call id .features =
          h.withNewborn id (h.newcomer id terms) (h.journal ++ h.firstEntries id terms)
            (h.calls + 2) := by
    have hwritten := call_of_undemanding (h := (h.withNewborn id (h.newcomer id terms)
      (h.journal ++ [⟨h.now, id.text, .created⟩]) (h.calls + 1)).write id
        (.features terms.wait terms.bound terms.language terms.secure)) hfeatures
    rw [hwritten]
    simp [write, withNewborn, firstEntries]
  have htold : (h.withNewborn id (h.newcomer id terms) (h.journal ++ h.firstEntries id terms)
      (h.calls + 2)).creation s = h.creation (h.newcomer id terms) := by
    rw [hs]
    rfl
  unfold Hub.begin
  simp only [← hs, hannounced, addSteward_withNewborn, hattended, hasked, htold]

/-- What becomes of the exchange that is to be answered with the beginning of `s`: the answer is
handed over if somebody still waits for it. -/
def greeted (h : Hub) (s : Session Observer) (x : Exchange) : Exchange :=
  ((x.bind s.id).deliver (.creation (h.creation s))).2

@[simp] theorem key_greeted (h : Hub) (s : Session Observer) (x : Exchange) :
    (h.greeted s x).key = x.key := by
  simp [greeted]

theorem mailbox_greeted_of_gone (h : Hub) (s : Session Observer) (hx : x.isAnswerable = false) :
    (h.greeted s x).mailbox = x.mailbox := by
  have hgone : (x.bind s.id).isAnswerable = false := hx
  rw [greeted, Exchange.deliver_of_not_answerable hgone]
  rfl

/-- The hub in which the session `s` has just begun, and `y` is what became of the exchange with
which it began. The jobs are left out. -/
def withSession (h : Hub) (s : Session Observer) (y : Exchange) : Hub :=
  { h.replaceLoose y with
    sessions := h.sessions ++ [s]
    registry := (s.id, h.sessions.length) :: h.registry
    timers := h.timers.set registryTimer ((h.timer registryTimer).withOneMore s.id
      h.sessions.length (h.now + s.terms.inactivityTimeout))
    calls := h.calls + 2
    journal := h.journal ++ h.firstEntries s.id s.terms }

/-- A session begins on a loose exchange, under an identifier for which no countdown counts. -/
theorem Alone.begin (ha : h.Alone x) (hcreated : h.server.demands h.calls id .created = [])
    (hfeatures : h.server.demands (h.calls + 1) id .features = [])
    (hidle : (h.timer registryTimer).isArmed id = false) {s : Session Observer}
    (hs : s = h.newcomer id terms) :
    ∃ ready parked, (ready ++ parked).Perm (h.ready ++ h.parked) ∧
      h.begin id terms x.key = { h.withSession s (h.greeted s x) with
        ready := ready ++ [.evict registryTimer (h.timer registryTimer).next h.sessions.length]
        parked } := by
  obtain ⟨h₁, hh₁⟩ : ∃ h₁, h₁ =
    h.withNewborn id s (h.journal ++ h.firstEntries id terms) (h.calls + 2) := ⟨_, rfl⟩
  have hbegin := begin_of_undemanding hcreated hfeatures terms x.key
  rw [← hs, ← hh₁] at hbegin
  -- the new session holds nothing, so the exchange is still the only one with its key
  have ha₁ : h₁.Alone x := by
    rw [hh₁]
    refine ⟨ha.mem, ha.loose, fun r hr => ?_⟩
    rcases List.mem_append.mp hr with hr | hr
    · exact ha.held r hr
    · obtain rfl := List.mem_singleton.mp hr
      simp [hs, newcomer]
  obtain ⟨ready₁, parked₁, hperm₁, hanswered⟩ := ha₁.serve
    (f := fun x => ((x.bind id).deliver (.creation (h.creation s))).2) (by simp [Exchange.bind])
  have hid : s.id = id := by
    rw [hs]
    rfl
  have hgreeted : ((x.bind id).deliver (.creation (h.creation s))).2 = h.greeted s x := by
    rw [greeted, hid]
  rw [hgreeted] at hanswered
  obtain ⟨h₂, hh₂⟩ : ∃ h₂, h₂ =
    { h₁.replaceLoose (h.greeted s x) with ready := ready₁, parked := parked₁ } := ⟨_, rfl⟩
  rw [← hh₂] at hanswered
  have hthere : h₂.session? h.sessions.length = some s := by
    rw [hh₂, hh₁]
    exact List.getElem?_concat_length
  have hidle₂ : (h₂.timer registryTimer).isArmed s.id = false := by
    rw [hh₂, hh₁, hid]
    exact hidle
  obtain ⟨ready, parked, hperm, harmed⟩ := arm_of_not_armed hthere (by rw [hs]; rfl) hidle₂
  refine ⟨ready, parked, ?_, ?_⟩
  · rw [hh₂] at hperm
    rw [hh₁] at hperm₁
    exact hperm.trans hperm₁
  · rw [hbegin, hanswered, harmed, hh₂, hh₁, hs]
    rfl

/-! ### Creation -/

/-- A creation settles first whether the answer may be compressed. That makes no difference to the
draw nor to the terms. -/
theorem create_eq (ho : h.Orderly) (request : Request) (hx : x ∈ h.loose) :
    ∃ ready parked, (ready ++ parked).Perm (h.ready ++ h.parked) ∧
      h.create request x.key =
        match h.draw maxDraws h.drawn with
        | (drawn, some id) =>
          ({ h.replaceLoose (x.compress h.server.compression) with drawn, ready, parked }.begin id
            (h.termsFor request x.secure) x.key, .ok h.sessions.length)
        | (drawn, none) =>
          ({ h.replaceLoose (x.compress h.server.compression) with drawn, ready, parked }.serve
            x.key Exchange.drop, .error (.idsExhausted maxDraws)) := by
  have hsecure : (h.exchange? x.key).any Exchange.secure = x.secure := by
    rw [ho.exchange?_eq_some_iff.mpr ⟨mem_exchanges_of_loose hx, rfl⟩]
    rfl
  obtain ⟨ready, parked, hperm, hcompressed⟩ :=
    (ho.alone hx).serve (f := fun x => x.compress h.server.compression) rfl
  obtain ⟨h₁, hh₁⟩ : ∃ h₁ : Hub, h₁ =
    { h.replaceLoose (x.compress h.server.compression) with ready, parked } := ⟨_, rfl⟩
  rw [← hh₁] at hcompressed
  have hdraw : h₁.draw maxDraws h₁.drawn = h.draw maxDraws h.drawn := by
    rw [hh₁]
    exact draw_congr rfl rfl maxDraws h.drawn
  refine ⟨ready, parked, hperm, ?_⟩
  simp only [create, hsecure, hcompressed, hdraw]
  rw [hh₁]
  rfl

/-- Every identifier is taken. -/
theorem create_of_taken (ho : h.Orderly) (request : Request) (hx : x ∈ h.loose)
    (htaken : ∀ i < maxDraws, h.lookup (h.ids (h.drawn + i)) ≠ none) :
    ∃ ready parked, (ready ++ parked).Perm (h.ready ++ h.parked) ∧
      h.create request x.key =
        ({ h.replaceLoose (x.compress h.server.compression).drop with
          drawn := h.drawn + maxDraws, ready, parked }, .error (.idsExhausted maxDraws)) := by
  obtain ⟨x₁, hx₁⟩ : ∃ x₁, x₁ = x.compress h.server.compression := ⟨_, rfl⟩
  have hkey : x₁.key = x.key := by
    rw [hx₁]
    rfl
  obtain ⟨ready₁, parked₁, hperm₁, hcreate⟩ := create_eq ho request hx
  rw [draw_of_none htaken, ← hx₁] at hcreate
  have ha : Alone { h.replaceLoose x₁ with
      drawn := h.drawn + maxDraws, ready := ready₁, parked := parked₁ } x₁ := by
    obtain ⟨hmem, hloose, hheld⟩ := (ho.alone hx).replace hkey
    exact ⟨hmem, hloose, hheld⟩
  obtain ⟨ready, parked, hperm, hdropped⟩ := ha.serve (f := Exchange.drop) rfl
  rw [hkey] at hdropped
  refine ⟨ready, parked, hperm.trans hperm₁, ?_⟩
  rw [hcreate, ← hx₁]
  refine congrArg (·, _) (hdropped.trans ?_)
  simp only [replaceLoose, map_replace_twice (show x₁.key = x₁.drop.key from rfl)]

/-! ### What a creation leads to -/

/-- The session `s` has begun: it is open, it is registered, and its countdown runs. The other
entries and countdowns are as before. -/
structure Begins (h : Hub) (s : Session Observer) (y : Exchange) (h' : Hub) : Prop where
  isOpen : s.closed = false
  session : h'.session? h.sessions.length = some s
  registered : h'.lookup s.id = some h.sessions.length
  others : ∀ id, id ≠ s.id → h'.lookup id = h.lookup id
  ticking : Ticking h.sessions.length (h.now + s.terms.inactivityTimeout) h'
  countdowns : ∀ c, c.target ≠ h.sessions.length → (c ∈ h'.running ↔ c ∈ h.running)
  /-- Nothing else has happened but that somebody may have been woken. -/
  hub : ∃ drawn ready parked, (ready ++ parked).Perm (h.ready ++ h.parked) ∧
    h' = { h.withSession s y with
      drawn
      ready := ready ++ [.evict registryTimer (h.timer registryTimer).next h.sessions.length]
      parked }

/-- The requester of `x` is told about the session `s`, if it waits. What it reads are the
identifier and the limits that are kept. -/
structure Tells (h : Hub) (s : Session Observer) (x y : Exchange) : Prop where
  waiting : x.isAnswerable = true → ∃ c,
    y.mailbox = .holding ⟨.creation c, h.server.compression⟩ ∧
    ∃ inactivity polling, s.terms.inactivityTimeout = inactivity * 1000 ∧
      s.terms.pollingInterval = polling * 1000 ∧
      Body.read? (Body.render (.creation c)) = some (.creation s.id.text s.id.text
        h.settings.maxRequests inactivity polling s.terms.wait h.server.features)
  gone : x.isAnswerable = false → y.mailbox = x.mailbox

theorem begins_of_eq (hone : h.timers.length = 1) {s : Session Observer} (hopen : s.closed = false)
    {drawn : Nat} {ready parked : List Job} (hperm : (ready ++ parked).Perm (h.ready ++ h.parked))
    {h' : Hub} (hh' : h' = { h.withSession s y with
      drawn
      ready := ready ++ [.evict registryTimer (h.timer registryTimer).next h.sessions.length]
      parked }) : Begins h s y h' := by
  have htimer : h'.timer registryTimer = (h.timer registryTimer).withOneMore s.id
      h.sessions.length (h.now + s.terms.inactivityTimeout) := by
    rw [hh']
    exact timer_setTimer_of_oneTable hone _
  refine ⟨hopen, ?_, ?_, fun id hne => ?_, ?_, fun c hc => ?_, drawn, ready, parked, hperm, hh'⟩
  · rw [hh']
    exact List.getElem?_concat_length
  · simp [hh', lookup, withSession]
  · simp [hh', lookup, withSession, List.lookup_cons, beq_false_of_ne hne]
  · refine ⟨⟨(h.timer registryTimer).next, s.id, h.sessions.length, _⟩, ?_, rfl, rfl⟩
    rw [running, htimer]
    exact List.mem_append_right _ (List.mem_singleton.mpr rfl)
  · rw [running, htimer, running, Countdowns.withOneMore]
    simp only [List.mem_append, List.mem_singleton, or_iff_left_iff_imp]
    rintro rfl
    exact absurd rfl hc

theorem tells_greeted (h : Hub) {s : Session Observer} {request : Request} {secure : Bool}
    (hterms : s.terms = h.termsFor request secure) (x : Exchange) :
    Tells h s x (h.greeted s (x.compress h.server.compression)) := by
  have hsame : ((x.compress h.server.compression).bind s.id).isAnswerable = x.isAnswerable := rfl
  refine ⟨fun hx => ?_, fun hx => ?_⟩
  · rw [greeted, Exchange.deliver_of_answerable (hsame.trans hx)]
    refine ⟨h.creation s, rfl, h.settings.inactivityTimeout, h.settings.pollingInterval, ?_, ?_, ?_⟩
    · rw [hterms]
      rfl
    · rw [hterms]
      rfl
    · have hseconds : s.terms.inactivityTimeout / 1000 = h.settings.inactivityTimeout := by
        rw [hterms]
        exact Nat.mul_div_cancel _ (by decide)
      rw [Body.read?_renderCreation]
      simp [creation, hseconds]
  · exact mailbox_greeted_of_gone h s hx

/-- A job may be added to both of two queues. -/
theorem perm_with_job {ready parked ready' parked' : List Job}
    (hperm : (ready ++ parked).Perm (ready' ++ parked')) (job : Job) :
    (ready ++ [job] ++ parked).Perm (ready' ++ [job] ++ parked') := by
  simp only [List.append_assoc, List.singleton_append]
  exact (List.perm_middle.trans (hperm.cons job)).trans List.perm_middle.symm

/-! ### A server that demands nothing -/

section

variable (hcreated : ∀ n id, h.server.demands n id .created = [])
  (hfeatures : ∀ n id, h.server.demands n id .features = [])

include hcreated hfeatures

/-- One of the identifiers is not taken, and the server demands nothing. -/
theorem InStep.create_of_free (hi : InStep still h) (ho : h.Orderly) (request : Request)
    (hx : x ∈ h.loose) {i : Nat} (hlt : i < maxDraws)
    (htaken : ∀ j < i, h.lookup (h.ids (h.drawn + j)) ≠ none)
    (hfree : h.lookup (h.ids (h.drawn + i)) = none) {s : Session Observer}
    (hs : s = h.newcomer (h.ids (h.drawn + i)) (h.termsFor request x.secure)) :
    ∃ ready parked, (ready ++ parked).Perm (h.ready ++ h.parked) ∧
      h.create request x.key =
        ({ h.withSession s (h.greeted s (x.compress h.server.compression)) with
          drawn := h.drawn + i + 1
          ready := ready ++ [.evict registryTimer (h.timer registryTimer).next h.sessions.length]
          parked }, .ok h.sessions.length) := by
  obtain ⟨x₁, hx₁⟩ : ∃ x₁, x₁ = x.compress h.server.compression := ⟨_, rfl⟩
  have hkey : x₁.key = x.key := by
    rw [hx₁]
    rfl
  obtain ⟨ready₁, parked₁, hperm₁, hcreate⟩ := create_eq ho request hx
  rw [draw_of_first hlt htaken hfree, ← hx₁] at hcreate
  have ha : Alone { h.replaceLoose x₁ with
      drawn := h.drawn + i + 1, ready := ready₁, parked := parked₁ } x₁ := by
    obtain ⟨hmem, hloose, hheld⟩ := (ho.alone hx).replace hkey
    exact ⟨hmem, hloose, hheld⟩
  obtain ⟨ready, parked, hperm, hbegin⟩ := ha.begin (hcreated _ _) (hfeatures _ _)
    (hi.sane.isArmed_of_free hfree) (hs.trans rfl)
  rw [hkey] at hbegin
  refine ⟨ready, parked, hperm.trans hperm₁, ?_⟩
  rw [hcreate, ← hx₁]
  refine congrArg (·, _) (hbegin.trans ?_)
  have hgreeted : Hub.greeted { h.replaceLoose x₁ with
      drawn := h.drawn + i + 1, ready := ready₁, parked := parked₁ } s x₁ = h.greeted s x₁ := rfl
  rw [hgreeted]
  simp only [withSession, replaceLoose, map_replace_twice (key_greeted h s x₁).symm]
  rfl

/-- One of the identifiers is not taken: the session begins under the first of these. -/
theorem InStep.create_begins (hi : InStep still h) (ho : h.Orderly) (request : Request)
    (hx : x ∈ h.loose) (hsome : ∃ i < maxDraws, h.lookup (h.ids (h.drawn + i)) = none) :
    (h.create request x.key).2 = .ok h.sessions.length ∧ ∃ i < maxDraws, ∃ s y,
      s.id = h.ids (h.drawn + i) ∧ h.lookup s.id = none ∧
      (∀ j < i, h.lookup (h.ids (h.drawn + j)) ≠ none) ∧
      s.terms = h.termsFor request x.secure ∧ y.key = x.key ∧
      Begins h s y (h.create request x.key).1 ∧ Tells h s x y := by
  obtain ⟨i, hlt, hfree, htaken⟩ := exists_first_free hsome
  obtain ⟨s, hs⟩ : ∃ s, s = h.newcomer (h.ids (h.drawn + i)) (h.termsFor request x.secure) :=
    ⟨_, rfl⟩
  have hid : s.id = h.ids (h.drawn + i) := by
    rw [hs]
    rfl
  have hterms : s.terms = h.termsFor request x.secure := by
    rw [hs]
    rfl
  have hopen : s.closed = false := by
    rw [hs]
    rfl
  obtain ⟨ready, parked, hperm, heq⟩ :=
    hi.create_of_free hcreated hfeatures ho request hx hlt htaken hfree hs
  have hbegins : Begins h s (h.greeted s (x.compress h.server.compression))
      (h.create request x.key).1 := by
    rw [heq]
    exact begins_of_eq hi.sane.tidy.oneTable hopen hperm rfl
  exact ⟨by rw [heq], i, hlt, s, h.greeted s (x.compress h.server.compression), hid, hid ▸ hfree,
    htaken, hterms, key_greeted .., hbegins, tells_greeted h hterms x⟩

/-- If the requester leaves just before the creation, then it finds nothing in its mailbox. That is
the only difference, but that jobs may be woken at another time. -/
theorem InStep.create_of_gone (hi : InStep still h) (ho : h.Orderly) (request : Request)
    (hx : x ∈ h.loose) :
    ∃ y ready parked, y.key = x.key ∧ y.mailbox = x.mailbox ∧
      (ready ++ parked).Perm
        ((h.create request x.key).1.ready ++ (h.create request x.key).1.parked) ∧
      (h.departRequester x.key).create request x.key =
        ({ (h.create request x.key).1.replaceLoose y with ready, parked },
          (h.create request x.key).2) := by
  obtain ⟨ready₁, parked₁, hperm₁, hgone⟩ := (ho.alone hx).departRequester
  have hi₁ := hi.beside (beside_departRequester h x.key)
  have ho₁ := ho.depart x.key
  have hmem : x.depart ∈ (h.departRequester x.key).loose := by
    rw [hgone]
    exact ((ho.alone hx).replace (y := x.depart) rfl).mem
  obtain ⟨h₁, hh₁⟩ : ∃ h₁, h₁ = h.departRequester x.key := ⟨_, rfl⟩
  rw [← hh₁] at hgone hi₁ ho₁ hmem ⊢
  have hqueues : h₁.ready ++ h₁.parked = ready₁ ++ parked₁ := by rw [hgone]
  by_cases hsome : ∃ i < maxDraws, h.lookup (h.ids (h.drawn + i)) = none
  · obtain ⟨i, hlt, hfree, htaken⟩ := exists_first_free hsome
    obtain ⟨s, hs⟩ : ∃ s, s = h.newcomer (h.ids (h.drawn + i)) (h.termsFor request x.secure) :=
      ⟨_, rfl⟩
    obtain ⟨ready₀, parked₀, hperm₀, heq⟩ :=
      hi.create_of_free hcreated hfeatures ho request hx hlt htaken hfree hs
    obtain ⟨ready, parked, hperm, heq₁⟩ := hi₁.create_of_free (s := s)
      (by rw [hgone]; exact hcreated) (by rw [hgone]; exact hfeatures) ho₁ request hmem hlt
      (by rw [hgone]; exact htaken) (by rw [hgone]; exact hfree) (by rw [hgone]; exact hs)
    obtain ⟨y₀, hy₀⟩ : ∃ y, y = h.greeted s (x.compress h.server.compression) := ⟨_, rfl⟩
    obtain ⟨y, hy⟩ : ∃ y, y = h.greeted s (x.depart.compress h.server.compression) := ⟨_, rfl⟩
    have hgreeted : h₁.greeted s (x.depart.compress h₁.server.compression) = y := by
      rw [hgone, hy]
      rfl
    have hkey₀ : y₀.key = x.key := by
      rw [hy₀, key_greeted]
      rfl
    have hkey : y.key = x.key := by
      rw [hy, key_greeted]
      rfl
    rw [hgreeted] at heq₁
    rw [← hy₀] at heq
    rw [hqueues] at hperm
    refine ⟨y, ready ++ [.evict registryTimer (h.timer registryTimer).next h.sessions.length],
      parked, hkey, ?_, ?_, heq₁.trans ?_⟩
    · rw [hy, mailbox_greeted_of_gone]
      · rfl
      · simp [Exchange.isAnswerable, Exchange.compress, Exchange.depart]
    · rw [heq]
      exact perm_with_job ((hperm.trans hperm₁).trans hperm₀.symm) _
    · rw [heq, hgone]
      simp only [withSession, replaceLoose, map_replace_twice (hkey₀.trans hkey.symm),
        map_replace_twice (show x.depart.key = y.key from hkey.symm)]
      rfl
  · have htaken : ∀ i < maxDraws, h.lookup (h.ids (h.drawn + i)) ≠ none := fun i hlt hnone =>
      hsome ⟨i, hlt, hnone⟩
    obtain ⟨ready₀, parked₀, hperm₀, heq⟩ := create_of_taken ho request hx htaken
    obtain ⟨ready, parked, hperm, heq₁⟩ :=
      create_of_taken ho₁ request hmem (by rw [hgone]; exact htaken)
    obtain ⟨y, hy⟩ : ∃ y, y = (x.depart.compress h₁.server.compression).drop := ⟨_, rfl⟩
    have hkey : y.key = x.key := by
      rw [hy]
      rfl
    have hkey₀ : (x.compress h.server.compression).drop.key = y.key := hkey.symm
    rw [← hy] at heq₁
    rw [hqueues] at hperm
    refine ⟨y, ready, parked, hkey, by rw [hy]; rfl, ?_, heq₁.trans ?_⟩
    · rw [heq]
      exact (hperm.trans hperm₁).trans hperm₀.symm
    · rw [heq, hgone]
      simp only [replaceLoose, map_replace_twice hkey₀,
        map_replace_twice (show x.depart.key = y.key from hkey.symm)]

end

/-- **A session begins exactly if one of the next eight identifiers is not taken**, and then it
begins under the first of these. The server demands nothing in the two calls that it has; where the
identifiers come from does not matter, nor what has happened before, nor whether the requester still
waits.

* The session is open and registered, its countdown runs for the time that was agreed on, and all
  other entries and countdowns are as they were.
* A requester that waits finds the answer in its mailbox, and reads in it the identifier and the
  limits that are kept.
* If all eight are taken, nothing comes of it but that the exchange is let go of, without an answer.
* If the requester leaves just before, then it finds nothing, and everything else is the same, but
  that jobs may be woken at another time. -/
theorem creation_succeeds_iff_id_free (hr : h.Reachable)
    (hcreated : ∀ n id, h.server.demands n id .created = [])
    (hfeatures : ∀ n id, h.server.demands n id .features = []) (request : Request)
    (hx : x ∈ h.loose) :
    ((∃ k, (h.create request x.key).2 = .ok k) ↔
      ∃ i < 8, h.lookup (h.ids (h.drawn + i)) = none) ∧
    (∀ k, (h.create request x.key).2 = .ok k →
      k = h.sessions.length ∧ ∃ i < 8, ∃ s y,
        s.id = h.ids (h.drawn + i) ∧ h.lookup s.id = none ∧
        (∀ j < i, h.lookup (h.ids (h.drawn + j)) ≠ none) ∧
        s.terms = h.termsFor request x.secure ∧ y.key = x.key ∧
        Begins h s y (h.create request x.key).1 ∧ Tells h s x y) ∧
    (∀ fault, (h.create request x.key).2 = .error fault →
      fault = .idsExhausted 8 ∧ ∃ y drawn ready parked,
        y.key = x.key ∧ y.mailbox = x.mailbox ∧ y.hasSender = false ∧
        (ready ++ parked).Perm (h.ready ++ h.parked) ∧
        (h.create request x.key).1 = { h.replaceLoose y with drawn, ready, parked }) ∧
    ∃ y ready parked, y.key = x.key ∧ y.mailbox = x.mailbox ∧
      (ready ++ parked).Perm
        ((h.create request x.key).1.ready ++ (h.create request x.key).1.parked) ∧
      (h.departRequester x.key).create request x.key =
        ({ (h.create request x.key).1.replaceLoose y with ready, parked },
          (h.create request x.key).2) := by
  obtain ⟨still, hi⟩ := hr.inStep
  have ho := hr.orderly.1
  have hgone := hi.create_of_gone hcreated hfeatures ho request hx
  by_cases hsome : ∃ i < 8, h.lookup (h.ids (h.drawn + i)) = none
  · obtain ⟨hanswer, hbegun⟩ := hi.create_begins hcreated hfeatures ho request hx hsome
    refine ⟨⟨fun _ => hsome, fun _ => ⟨_, hanswer⟩⟩, fun k hk => ?_, fun fault hfault => ?_, hgone⟩
    · rw [hanswer] at hk
      exact ⟨(Except.ok.inj hk).symm, hbegun⟩
    · rw [hanswer] at hfault
      cases hfault
  · have htaken : ∀ i < maxDraws, h.lookup (h.ids (h.drawn + i)) ≠ none := fun i hlt hnone =>
      hsome ⟨i, hlt, hnone⟩
    obtain ⟨ready, parked, hperm, heq⟩ := create_of_taken ho request hx htaken
    have hanswer : (h.create request x.key).2 = .error (.idsExhausted 8) := by
      rw [heq]
      rfl
    refine ⟨⟨fun hok => ?_, fun hfree => absurd hfree hsome⟩, fun k hk => ?_,
      fun fault hfault => ?_, hgone⟩
    · obtain ⟨k, hk⟩ := hok
      rw [hanswer] at hk
      cases hk
    · rw [hanswer] at hk
      cases hk
    · rw [hanswer] at hfault
      exact ⟨(Except.error.inj hfault).symm, (x.compress h.server.compression).drop, _, ready,
        parked, rfl, rfl, rfl, hperm, by rw [heq]⟩

/-- A session has begun under the identifier `a`, another client has come, and what is drawn next is
`a` so many times and then `b`. -/
def repeating (times : Nat) : Hub :=
  (Script.withService {} { features := "<f/>", compression := .optional } .recorded fun n =>
    if n ≤ times then ⟨"a"⟩ else ⟨"b"⟩).play [.connect 1 false, .create {} 0, .connect 1 true]

/-- Seven draws in vain are not too many, and the client is told what it has to know. Eight are. -/
theorem eighth_draw_succeeds :
    ((repeating 7).create {} 1).2 = .ok 1 ∧
    (∃ s y, Begins (repeating 7) s y ((repeating 7).create {} 1).1 ∧ s.id = ⟨"b"⟩ ∧
      ∃ c, y.mailbox = .holding ⟨.creation c, .optional⟩ ∧
        Body.read? (Body.render (.creation c)) =
          some (.creation "b" "b" 2 1800 5 60 "<f/>")) ∧
    ((repeating 8).create {} 1).2 = .error (.idsExhausted 8) := by
  have hfew := creation_succeeds_iff_id_free (h := repeating 7) ⟨_, _, _, _, _, rfl⟩
    (fun _ _ => rfl) (fun _ _ => rfl) {}
    (show Exchange.fresh 1 1 true ∈ (repeating 7).loose by decide)
  have hmany := creation_succeeds_iff_id_free (h := repeating 8) ⟨_, _, _, _, _, rfl⟩
    (fun _ _ => rfl) (fun _ _ => rfl) {}
    (show Exchange.fresh 1 1 true ∈ (repeating 8).loose by decide)
  have hbegun : ((repeating 7).create {} 1).2 = .ok 1 := by
    obtain ⟨k, hk⟩ := hfew.1.mpr ⟨7, by decide, by decide⟩
    obtain rfl := (hfew.2.1 k hk).1
    exact hk
  have hexhausted : ((repeating 8).create {} 1).2 = .error (.idsExhausted 8) := by
    cases hanswer : ((repeating 8).create {} 1).2 with
    | ok k => exact absurd (hmany.1.mp ⟨k, hanswer⟩) (by decide)
    | error fault => rw [(hmany.2.2.1 fault hanswer).1]
  obtain ⟨-, i, -, s, y, -, -, -, hterms, -, hbegins, htells⟩ := hfew.2.1 1 hbegun
  have hid : s.id = ⟨"b"⟩ := by
    have hnamed : (((repeating 7).create {} 1).1.session? 1).map Session.id = some ⟨"b"⟩ := by
      decide
    have hthere : ((repeating 7).create {} 1).1.session? 1 = some s := hbegins.session
    rw [hthere] at hnamed
    exact Option.some.inj hnamed
  obtain ⟨c, hc, inactivity, polling, hinactivity, hpolling, hread⟩ := htells.waiting (by decide)
  have hlimits : inactivity * 1000 = 1800 * 1000 ∧ polling * 1000 = 5 * 1000 := by
    rw [hterms] at hinactivity hpolling
    exact ⟨hinactivity.symm, hpolling.symm⟩
  have hwait : s.terms.wait = 60 := by
    rw [hterms]
    rfl
  obtain rfl : inactivity = 1800 := by omega
  obtain rfl : polling = 5 := by omega
  rw [hid, hwait] at hread
  exact ⟨hbegun, ⟨s, y, hbegins, hid, c, hc, hread⟩, hexhausted⟩

end HttpBinding.Hub
