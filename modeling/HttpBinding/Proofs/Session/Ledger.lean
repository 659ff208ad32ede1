import HttpBinding.Proofs.Session.Sound

/-!
# HttpBinding.Proofs.Session.Ledger

No stanza is lost, sent twice, or overtaken by a later one.

A `Ledger` is a session with an account of what it has passed on. `step` lets one `Deed` happen to
the session and books two things: the stanzas that came into the mailbox of an exchange during the
deed, and the stanzas that were handed on because the session has ended. What is booked is read
off the exchanges (`handedOver` compares each of them before and after the deed), not off the
answers of the session.

The law (`passedOn_append_buffer`) says that at any time the stanzas booked, followed by those
still buffered, are the stanzas that were given to the session, in the same order. It holds because
a session never buffers while it holds an exchange (`Sound.apart`): whatever is sent directly finds
an empty buffer, and the buffer is carried away as a whole.
-/

namespace HttpBinding

/-- The stanzas that came into the mailboxes of the exchanges `after` since they were `before`. -/
def handedOver (before after : List Exchange) : List Stanza :=
  after.flatMap fun y =>
    ((before.find? fun x => x.key == y.key).map fun x => x.newsSince y).getD []

namespace Session

/-- One thing that happens to a session with observers of type `ο`. -/
inductive Deed (ο : Type) where
  /-- A request is brought in, after what both of its sides did before, at time `now`. -/
  | enter (rid : Nat) (secure : Bool) (past : List Exchange.Act) (poll : Bool) (now : Nat)
  | deliver (stanza : Stanza)
  | release
  | close (shutdown : Bool)
  /-- The requester of an exchange stops waiting. -/
  | depart (key : Nat)
  | observe (o : ο)
  | unobserve (ticket : Nat)

/-- The stanza that is given to the session. -/
def Deed.stanza? {ο : Type} : Deed ο → Option Stanza
  | .deliver stanza => some stanza
  | _ => none

variable {ο : Type}

/-- The session after the requester of an exchange that it may hold has left. -/
def depart (s : Session ο) (key : Nat) : Session ο :=
  { s with held := s.held.map fun x => if x.key = key then x.depart else x }

end Session

/-- A session and what it has passed on. -/
structure Ledger (ο : Type) where
  session : Session ο
  /-- How many exchanges were brought in. The next one gets this number as its key. -/
  entered : Nat := 0
  /-- The stanzas that were handed to clients or handed on, in order of time. -/
  passedOn : List Stanza := []

namespace Ledger

variable {ο α : Type}

/-- The ledger of a session that has just begun. -/
def start (id : StreamId) (terms : Terms) (sink : Sink) : Ledger ο where
  session := { id, terms, sink }

/-- Books what an operation has done to the exchanges that it could get at. -/
def book (l : Ledger ο) (before : List Exchange) (r : Report ο α) : Ledger ο :=
  { l with
    session := r.session
    passedOn := l.passedOn ++ (handedOver before r.released ++ r.failedOver) }

/-- Lets one thing happen. -/
def step (l : Ledger ο) : Session.Deed ο → Ledger ο
  | .enter rid secure past poll now =>
    let x := (Exchange.fresh l.entered rid secure).after past
    { l.book (x :: l.session.held) (l.session.accept x poll now) with entered := l.entered + 1 }
  | .deliver stanza => l.book l.session.held (l.session.deliver stanza)
  | .release => l.book l.session.held l.session.release
  | .close shutdown => l.book l.session.held (l.session.close shutdown)
  | .depart key => { l with session := l.session.depart key }
  | .observe o => { l with session := (l.session.observe o).2 }
  | .unobserve ticket => { l with session := (l.session.unobserve ticket).2 }

/-- Lets things happen, one after the other. -/
def play (l : Ledger ο) (deeds : List (Session.Deed ο)) : Ledger ο := deeds.foldl step l

end Ledger

/-! ### Comparing mailboxes -/

/-- Exchanges with different keys are told apart by them. -/
theorem find?_key {before : List Exchange} (hd : (before.map Exchange.key).Nodup) {x : Exchange}
    (hx : x ∈ before) : before.find? (fun y => y.key == x.key) = some x := by
  induction before with
  | nil => cases hx
  | cons y ys ih =>
      rw [List.map_cons, List.nodup_cons] at hd
      rcases List.mem_cons.mp hx with rfl | hx
      · simp
      · have hne : y.key ≠ x.key := fun h => hd.1 (h ▸ List.mem_map_of_mem hx)
        rw [List.find?_cons_of_neg (by simpa using hne)]
        exact ih hd.2 hx

@[simp] theorem handedOver_nil (before : List Exchange) : handedOver before [] = [] := rfl

theorem handedOver_append (before xs ys : List Exchange) :
    handedOver before (xs ++ ys) = handedOver before xs ++ handedOver before ys := by
  simp [handedOver]

/-- What is done to each exchange of a list is compared one by one. -/
theorem handedOver_map {before xs : List Exchange} (hd : (before.map Exchange.key).Nodup)
    (hsub : ∀ x ∈ xs, x ∈ before) {f : Exchange → Exchange} (hf : ∀ x, (f x).key = x.key) :
    handedOver before (xs.map f) = xs.flatMap fun x => x.newsSince (f x) := by
  induction xs with
  | nil => rfl
  | cons x xs ih =>
      have hx : before.find? (fun y => y.key == (f x).key) = some x := by
        rw [hf]
        exact find?_key hd (hsub x (by simp))
      have hxs := ih fun y hy => hsub y (by simp [hy])
      simp only [handedOver] at hxs
      simp [handedOver, hx, hxs]

/-- What is done to one exchange is compared with what it was. -/
theorem handedOver_singleton {before : List Exchange} (hd : (before.map Exchange.key).Nodup)
    {x : Exchange} (hx : x ∈ before) {f : Exchange → Exchange} (hf : ∀ y, (f y).key = y.key) :
    handedOver before [f x] = x.newsSince (f x) := by
  have hsub : ∀ y ∈ [x], y ∈ before := by simpa using hx
  simpa using handedOver_map hd hsub hf

/-- Nothing is handed over by acts that never put a stanza into a mailbox. -/
theorem handedOver_map_eq_nil {before xs : List Exchange}
    (hd : (before.map Exchange.key).Nodup) (hsub : ∀ x ∈ xs, x ∈ before)
    {f : Exchange → Exchange} (hf : ∀ x, (f x).key = x.key)
    (hnews : ∀ x : Exchange, x.newsSince (f x) = []) : handedOver before (xs.map f) = [] := by
  rw [handedOver_map hd hsub hf]
  simp [hnews]

/-- Letting go of those who left hands nothing over. -/
theorem handedOver_abandoned {before held : List Exchange}
    (hd : (before.map Exchange.key).Nodup) (hsub : ∀ x ∈ held, x ∈ before) :
    handedOver before (Session.abandoned held) = [] :=
  handedOver_map_eq_nil hd (fun x hx => hsub x (List.mem_filter.mp hx).1) Exchange.close_key
    fun x => Exchange.newsSince_of_mailbox_eq x.mailbox_close

/-- An attempt that failed hands nothing over. -/
theorem handedOver_spent {before xs : List Exchange} (hd : (before.map Exchange.key).Nodup)
    (hsub : ∀ x ∈ xs, x ∈ before) : handedOver before (xs.map Exchange.spent) = [] :=
  handedOver_map_eq_nil hd hsub (fun _ => rfl) fun _ => Exchange.newsSince_of_mailbox_eq rfl

/-- A last body without stanzas hands nothing over. -/
theorem handedOver_closeWith {before xs : List Exchange} (hd : (before.map Exchange.key).Nodup)
    (hsub : ∀ x ∈ xs, x ∈ before) {b : Body} (hb : b.stanzas = []) :
    handedOver before (xs.map fun x => x.closeWith b) = [] :=
  handedOver_map_eq_nil hd hsub (fun x => x.closeWith_key b) fun _ =>
    Exchange.newsSince_closeWith hb

/-- The exchange that takes a body is handed the stanzas of that body. -/
theorem handedOver_answered {before : List Exchange} (hd : (before.map Exchange.key).Nodup)
    {x : Exchange} (hx : x ∈ before) (hc : x.Consistent) (ha : x.isAnswerable = true) {b : Body}
    {f : Exchange → Exchange} (hf : ∀ y, (f y).key = y.key)
    (hbox : (f x).mailbox = (x.answered b).mailbox) :
    handedOver before [f x] = b.stanzas := by
  rw [handedOver_singleton hd hx hf, ← Exchange.newsSince_answered (hc.vacant_of_answerable ha) b]
  simp only [Exchange.newsSince, hbox]

/-! ### The books balance -/

namespace Ledger

variable {ο α : Type}

/-- The books of a ledger balance for the stanzas `given` so far. -/
structure Balanced (given : List Stanza) (l : Ledger ο) : Prop where
  sound : l.session.Sound
  consistent : ∀ x ∈ l.session.held, x.Consistent
  numbered : ∀ x ∈ l.session.held, x.key < l.entered
  distinct : (l.session.held.map Exchange.key).Nodup
  balance : l.passedOn ++ l.session.buffer = given

theorem balanced_start (id : StreamId) (terms : Terms) (sink : Sink) :
    (start id terms sink : Ledger ο).Balanced [] :=
  ⟨Session.sound_new id terms sink, by simp [start], by simp [start], List.nodup_nil, rfl⟩

/-- What an operation leaves in the queue was there before, as long as the books of the operation
itself balance. -/
theorem Balanced.book {given more : List Stanza} {l : Ledger ο} (h : l.Balanced given)
    {before : List Exchange} {r : Report ο α} (hsound : r.session.Sound)
    (hheld : r.session.held.Sublist l.session.held)
    (hbalance : handedOver before r.released ++ r.failedOver ++ r.session.buffer =
      l.session.buffer ++ more) : (l.book before r).Balanced (given ++ more) := by
  refine ⟨hsound, fun x hx => h.consistent x (hheld.subset hx),
    fun x hx => h.numbered x (hheld.subset hx), (hheld.map Exchange.key).nodup h.distinct, ?_⟩
  simp only [Ledger.book]
  rw [List.append_assoc, hbalance, ← List.append_assoc, h.balance]

theorem waiting_sublist (held : List Exchange) : (Session.waiting held).Sublist held :=
  List.filter_sublist

theorem Balanced.release {given : List Stanza} {l : Ledger ο} (h : l.Balanced given) :
    (l.step .release).Balanced given := by
  rw [← List.append_nil given]
  rcases Session.release_cases l.session with ⟨-, heq⟩ | ⟨-, heq⟩
  · refine h.book h.sound.release ?_ ?_ <;> simp [heq]
  · refine h.book h.sound.release ?_ ?_ <;> rw [heq]
    · exact waiting_sublist _
    · simp [handedOver_abandoned h.distinct]

theorem Balanced.deliver {given : List Stanza} {l : Ledger ο} (h : l.Balanced given)
    (stanza : Stanza) : (l.step (.deliver stanza)).Balanced (given ++ [stanza]) := by
  rcases Session.deliver_cases l.session stanza with
    ⟨hc, heq⟩ | ⟨-, pre, x, post, hheld, -, hx, heq⟩ | ⟨-, -, heq⟩
  · -- the session has ended, so nothing is buffered that could be overtaken
    refine h.book (h.sound.deliver stanza) (heq ▸ List.Sublist.refl _) ?_
    obtain ⟨-, hb⟩ := h.sound.ended hc
    rw [heq]
    simp [hb]
  · -- an exchange is held, so nothing is buffered that could be overtaken
    refine h.book (h.sound.deliver stanza) ?_ ?_ <;> rw [heq]
    · show post.Sublist l.session.held
      rw [hheld]
      exact (List.sublist_cons_self x post).trans (List.sublist_append_right pre _)
    · have hb : l.session.buffer = [] := h.sound.apart.resolve_right (by simp [hheld])
      have hmem : x ∈ l.session.held := by simp [hheld]
      have hspent : handedOver l.session.held (pre.map Exchange.spent) = [] :=
        handedOver_spent h.distinct fun y hy => by simp [hheld, hy]
      have hsent : handedOver l.session.held [x.answered (.delivery [stanza])] = [stanza] :=
        handedOver_answered (f := fun y => y.answered (.delivery [stanza])) h.distinct hmem
          (h.consistent x hmem) hx (fun _ => rfl) rfl
      simp [handedOver_append, hspent, hsent, hb]
  · -- nothing can be answered, so the stanza queues up behind the others
    refine h.book (h.sound.deliver stanza) ?_ ?_ <;> rw [heq]
    · exact List.nil_sublist _
    · simp [handedOver_spent h.distinct]

theorem Balanced.close {given : List Stanza} {l : Ledger ο} (h : l.Balanced given)
    (shutdown : Bool) : (l.step (.close shutdown)).Balanced given := by
  rw [← List.append_nil given]
  rcases Session.close_cases l.session shutdown with ⟨-, heq⟩ | ⟨-, heq⟩
  · refine h.book (h.sound.close shutdown) ?_ ?_ <;> simp [heq]
  · refine h.book (h.sound.close shutdown) ?_ ?_ <;> rw [heq]
    · exact List.nil_sublist _
    · have hlast : handedOver l.session.held
          (l.session.held.map fun x => x.closeWith (.terminate (Session.condition shutdown))) =
            [] :=
        handedOver_closeWith h.distinct (fun _ hx => hx) rfl
      simp [hlast]

/-- A queue keeps its keys apart when an exchange with a key of its own is added. -/
theorem distinct_append {held kept : List Exchange} {x y : Exchange}
    (hd : ((x :: held).map Exchange.key).Nodup) (hkept : kept.Sublist held)
    (hkey : y.key = x.key) : ((kept ++ [y]).map Exchange.key).Nodup := by
  have hcons : ((x :: kept).map Exchange.key).Nodup :=
    ((hkept.cons_cons x).map Exchange.key).nodup hd
  rw [List.map_cons, List.nodup_cons] at hcons
  rw [List.map_append, List.nodup_append]
  refine ⟨hcons.2, by simp, fun a ha b hb => ?_⟩
  obtain rfl : b = x.key := by simpa [hkey] using hb
  intro heq
  subst heq
  exact hcons.1 ha

/-- A new exchange has a key that no held one has. -/
theorem Balanced.distinct_cons {given : List Stanza} {l : Ledger ο} (h : l.Balanced given)
    {x : Exchange} (hx : x.key = l.entered) :
    ((x :: l.session.held).map Exchange.key).Nodup := by
  rw [List.map_cons, List.nodup_cons]
  refine ⟨fun hmem => ?_, h.distinct⟩
  obtain ⟨y, hy, hkey⟩ := List.mem_map.mp hmem
  have hlt : y.key < l.entered := h.numbered y hy
  omega

/-- The counter of exchanges only matters for those to come. -/
theorem Balanced.count {given : List Stanza} {l : Ledger ο} (h : l.Balanced given) :
    { l with entered := l.entered + 1 }.Balanced given :=
  ⟨h.sound, h.consistent, fun x hx => Nat.lt_succ_of_lt (h.numbered x hx), h.distinct, h.balance⟩

theorem Balanced.enrol {given : List Stanza} {l : Ledger ο} (h : l.Balanced given)
    (hopen : l.session.closed = false) {x : Exchange} (hx : x.key = l.entered)
    (hcons : x.Consistent) :
    { l.book (x :: l.session.held) (l.session.enrol x) with
      entered := l.entered + 1 }.Balanced given := by
  have hd := h.distinct_cons hx
  have hgone : handedOver (x :: l.session.held) (Session.abandoned l.session.held) = [] :=
    handedOver_abandoned hd fun y hy => by simp [hy]
  rcases Session.enrol_cases l.session x with ⟨hb, heq⟩ | ⟨hb, ha, heq⟩ | ⟨hb, -, heq⟩
  · -- held: those who are pushed out get an empty body
    obtain ⟨n, hn⟩ : ∃ n, n = Session.excess l.session.terms.bound
      (Session.waiting l.session.held) := ⟨_, rfl⟩
    have hkept : ((Session.waiting l.session.held).drop n).Sublist l.session.held :=
      (List.drop_sublist n _).trans (waiting_sublist _)
    have hpushed : handedOver (x :: l.session.held)
        (((Session.waiting l.session.held).take n).map fun y => y.closeWith .empty) = [] := by
      refine handedOver_closeWith hd (fun y hy => ?_) rfl
      exact List.mem_cons_of_mem x
        (((List.take_sublist n _).trans (waiting_sublist _)).subset hy)
    have hsound := h.sound.enrol hopen x
    rw [heq, ← hn] at hsound ⊢
    refine ⟨hsound, fun y hy => ?_, fun y hy => ?_, ?_, ?_⟩
    · rcases List.mem_append.mp hy with hy | hy
      · exact h.consistent y (hkept.subset hy)
      · obtain rfl := List.mem_singleton.mp hy
        exact hcons.bind _
    · rcases List.mem_append.mp hy with hy | hy
      · exact Nat.lt_succ_of_lt (h.numbered y (hkept.subset hy))
      · obtain rfl := List.mem_singleton.mp hy
        show x.key < l.entered + 1
        omega
    · exact distinct_append hd hkept (x.key_bind l.session.id)
    · have hbal := h.balance
      rw [hb, List.append_nil] at hbal
      simp [Ledger.book, handedOver_append, hgone, hpushed, hb, hbal, -List.map_take]
  · -- the buffer is carried away, and nothing was held
    have hheld : l.session.held = [] := h.sound.apart.resolve_left hb
    have hsent : handedOver (x :: l.session.held)
        [(x.bind l.session.id).answered (.delivery l.session.buffer)] = l.session.buffer :=
      handedOver_answered
        (f := fun y => (y.bind l.session.id).answered (.delivery l.session.buffer)) hd
        (by simp) hcons ha (fun _ => rfl) rfl
    rw [← List.append_nil given]
    refine (h.book (h.sound.enrol hopen x) ?_ ?_).count <;> rw [heq]
    · exact waiting_sublist _
    · simp [handedOver_append, hgone, hsent]
  · -- the requester has gone: the buffer stays
    have hlost : handedOver (x :: l.session.held) [(x.bind l.session.id).spent.drop] = [] := by
      rw [handedOver_singleton (f := fun y => (y.bind l.session.id).spent.drop) hd (by simp)
        fun _ => rfl]
      exact Exchange.newsSince_of_mailbox_eq rfl
    rw [← List.append_nil given]
    refine (h.book (h.sound.enrol hopen x) ?_ ?_).count <;> rw [heq]
    · exact waiting_sublist _
    · simp [handedOver_append, hgone, hlost]

theorem Balanced.enter {given : List Stanza} {l : Ledger ο} (h : l.Balanced given)
    (rid : Nat) (secure : Bool) (past : List Exchange.Act) (poll : Bool) (now : Nat) :
    (l.step (.enter rid secure past poll now)).Balanced given := by
  obtain ⟨x, hx⟩ : ∃ x, x = (Exchange.fresh l.entered rid secure).after past := ⟨_, rfl⟩
  have hkey : x.key = l.entered := by simp [hx, Exchange.fresh]
  have hcons : x.Consistent := hx ▸ (Exchange.consistent_fresh l.entered rid secure).after past
  simp only [step, ← hx]
  rcases Session.accept_cases l.session x poll now with ⟨fault, p, heq⟩ | ⟨hopen, p, heq⟩
  · -- refused at once: only the time of the last poll may differ
    have hlost : handedOver (x :: l.session.held) [x.drop] = [] := by
      rw [handedOver_singleton (f := Exchange.drop) (h.distinct_cons hkey) (by simp)
        fun _ => rfl]
      exact Exchange.newsSince_of_mailbox_eq rfl
    rw [← List.append_nil given]
    refine (h.book (h.sound.accept x poll now) (heq ▸ List.Sublist.refl _) ?_).count
    rw [heq]
    simp [hlost]
  · have hpolled : { l with session := { l.session with lastPoll := p } }.Balanced given :=
      ⟨h.sound.of_eq rfl rfl rfl rfl rfl, h.consistent, h.numbered, h.distinct, h.balance⟩
    rw [heq]
    exact hpolled.enrol hopen hkey hcons

theorem Balanced.depart {given : List Stanza} {l : Ledger ο} (h : l.Balanced given)
    (key : Nat) : (l.step (.depart key)).Balanced given := by
  have hkeys : (l.step (.depart key)).session.held.map Exchange.key =
      l.session.held.map Exchange.key := by
    simp only [step, Session.depart, List.map_map]
    refine List.map_congr_left fun x _ => ?_
    simp only [Function.comp]
    split <;> rfl
  refine ⟨h.sound.map_held _, fun y hy => ?_, fun y hy => ?_, ?_, h.balance⟩
  · obtain ⟨x, hx, rfl⟩ := List.mem_map.mp hy
    split
    · exact (h.consistent x hx).depart
    · exact h.consistent x hx
  · obtain ⟨x, hx, rfl⟩ := List.mem_map.mp hy
    split <;> exact h.numbered x hx
  · rw [hkeys]
    exact h.distinct

/-- Every deed keeps the books balanced, with the stanza counted that it gives to the session. -/
theorem Balanced.step {given : List Stanza} {l : Ledger ο} (h : l.Balanced given)
    (d : Session.Deed ο) : (l.step d).Balanced (given ++ d.stanza?.toList) := by
  cases d with
  | deliver stanza => exact h.deliver stanza
  | enter rid secure past poll now =>
      simpa [Session.Deed.stanza?] using h.enter rid secure past poll now
  | release => simpa [Session.Deed.stanza?] using h.release
  | close shutdown => simpa [Session.Deed.stanza?] using h.close shutdown
  | depart key => simpa [Session.Deed.stanza?] using h.depart key
  | observe o | unobserve ticket =>
      simp only [Session.Deed.stanza?, Option.toList_none, List.append_nil]
      exact ⟨h.sound.of_eq rfl rfl rfl rfl rfl, h.consistent, h.numbered, h.distinct, h.balance⟩

theorem Balanced.play {given : List Stanza} {l : Ledger ο} (h : l.Balanced given)
    (deeds : List (Session.Deed ο)) :
    (l.play deeds).Balanced (given ++ deeds.filterMap Session.Deed.stanza?) := by
  induction deeds generalizing given l with
  | nil => simpa [Ledger.play] using h
  | cons d deeds ih =>
      have hstep := ih (h.step d)
      rw [List.append_assoc] at hstep
      cases hd : d.stanza? <;> simpa [Ledger.play, hd] using hstep

/-- **Conservation of stanzas.** Whatever happens to a session, in whatever order: the stanzas
that were put into the mailboxes of its exchanges or handed on, in order of time, followed by
those that are still buffered, are the stanzas that were given to the session, in the same
order. -/
theorem passedOn_append_buffer (id : StreamId) (terms : Terms) (sink : Sink)
    (deeds : List (Session.Deed ο)) :
    ((start id terms sink).play deeds).passedOn ++
        ((start id terms sink).play deeds).session.buffer =
      deeds.filterMap Session.Deed.stanza? :=
  ((balanced_start id terms sink).play deeds).balance

end Ledger

end HttpBinding
