import HttpBinding.Proofs.Exchange.Handover
import HttpBinding.Proofs.Session.Serving

/-!
# HttpBinding.Proofs.Patience

A requester that waits for its answer, but not for ever.

When its time is up such a requester takes three steps: it shuts its end so that nothing more comes
in, gives notice that it stopped waiting, and takes what has come in until then. In between others
may act: a body can be handed over after the time was up, and before the end was shut. `Patience`
says how far the requester has come. A `Vigil` is a requester at a stage, and a `Moment` lets
something happen on the stage, lets time pass, or lets the requester take its next step.

The law (`sent_stanza_returned`) holds because the end is shut before the mailbox is looked at for the
last time: whatever was handed over by then is found, and nothing is handed over later.
-/

namespace HttpBinding

/-! ### How an exchange may go on -/

namespace Exchange

/-- The requester shuts its end: nothing comes in any more. -/
def hangUp (x : Exchange) : Exchange := { x with listening := false }

/-- The requester gives notice that it stopped waiting. -/
def giveNotice (x : Exchange) : Exchange := { x with departed := true }

/-- A requester that leaves does both at once. -/
theorem giveNotice_hangUp (x : Exchange) : x.hangUp.giveNotice = x.depart := rfl

/-- `y` is what `x` has become, with nobody having taken the answer. -/
structure Follows (x y : Exchange) : Prop where
  key : y.key = x.key
  listening : y.listening = true → x.listening = true
  sender : y.hasSender = true → x.hasSender = true ∧ y.phase = x.phase
  mailbox : y.mailbox = x.mailbox ∨ x.isAnswerable = true ∧ ∃ r, y.mailbox = .holding r

variable {x y z : Exchange}

theorem Follows.refl (x : Exchange) : x.Follows x :=
  ⟨rfl, id, fun hs => ⟨hs, rfl⟩, Or.inl rfl⟩

theorem Follows.answerable (h : x.Follows y) (ha : y.isAnswerable = true) :
    x.isAnswerable = true := by
  simp only [isAnswerable, Bool.and_eq_true, beq_iff_eq] at ha ⊢
  obtain ⟨hsender, hphase⟩ := h.sender ha.1.2
  exact ⟨⟨hphase ▸ ha.1.1, hsender⟩, h.listening ha.2⟩

theorem Follows.trans (hxy : x.Follows y) (hyz : y.Follows z) : x.Follows z := by
  refine ⟨hyz.key.trans hxy.key, fun hl => hxy.listening (hyz.listening hl), fun hs => ?_, ?_⟩
  · obtain ⟨hy, hphase⟩ := hyz.sender hs
    exact ⟨(hxy.sender hy).1, hphase.trans (hxy.sender hy).2⟩
  · rcases hyz.mailbox with hz | ⟨ha, r, hr⟩
    · rw [hz]
      exact hxy.mailbox
    · exact Or.inr ⟨hxy.answerable ha, r, hr⟩

theorem Served.follows (h : x.Served y) : x.Follows y :=
  ⟨h.key, fun hl => h.listening ▸ hl, h.sender, h.mailbox⟩

theorem follows_hangUp (x : Exchange) : x.Follows x.hangUp :=
  ⟨rfl, fun hl => by simp [hangUp] at hl, fun hs => ⟨hs, rfl⟩, Or.inl rfl⟩

theorem follows_giveNotice (x : Exchange) : x.Follows x.giveNotice :=
  ⟨rfl, id, fun hs => ⟨hs, rfl⟩, Or.inl rfl⟩

theorem follows_depart (x : Exchange) : x.Follows x.depart :=
  (follows_hangUp x).trans (follows_giveNotice _)

/-- What was handed over is there until it is taken. -/
theorem Follows.take_eq (h : x.Follows y) (hc : x.Consistent) {r : Response}
    (hr : x.take.1 = some r) : y.take.1 = some r := by
  rcases h.mailbox with hy | ⟨ha, -⟩
  · rw [take_fst_of_mailbox_eq hy]
    exact hr
  · simp [Exchange.take, hc.vacant_of_answerable ha] at hr

/-- The mailbox of an exchange that cannot be answered stays as it is. -/
theorem Follows.mailbox_eq (h : x.Follows y) (hx : x.isAnswerable = false) :
    y.mailbox = x.mailbox ∧ y.isAnswerable = false := by
  refine ⟨h.mailbox.resolve_right (by simp [hx]), ?_⟩
  rw [Bool.eq_false_iff]
  intro ha
  rw [h.answerable ha] at hx
  cases hx

theorem outcome?_eq_ok {x : Exchange} {r : Response} (h : x.outcome? = some (.ok r)) :
    x.take.1 = some r := by
  unfold outcome? at h
  unfold Exchange.take
  split at h
  · simpa using h
  · split at h <;> simp at h

/-- There will be no answer only if none is there and the sender has gone. -/
theorem outcome?_eq_error {x : Exchange} {fault : Fault} (h : x.outcome? = some (.error fault)) :
    x.take.1 = none ∧ x.hasSender = false := by
  unfold outcome? at h
  unfold Exchange.take
  split at h
  · cases h
  · split at h
    · cases h
    · rename_i hs
      exact ⟨rfl, by simpa using hs⟩

theorem outcome?_eq_none {x : Exchange} (h : x.outcome? = none) :
    x.take.1 = none ∧ x.hasSender = true := by
  unfold outcome? at h
  unfold Exchange.take
  split at h
  · cases h
  · split at h
    · rename_i hs
      exact ⟨rfl, hs⟩
    · cases h

end Exchange

/-! ### The requester -/

/-- How far a requester has come that waits for a limited time. -/
inductive Patience where
  | waiting
  /-- The time is up, and it has not reacted yet. -/
  | overdue
  /-- It has shut its end. -/
  | hungUp
  /-- It has given notice, too. -/
  | noticed
  /-- It is done, and returns a response. -/
  | done (r : Response)
deriving DecidableEq, Repr

namespace Patience

/-- The next step of the requester of `x`, and what it does to the exchange, where `due` tells
whether its time is up. -/
def next (x : Exchange) (due : Bool) : Patience → Patience × Exchange
  | .waiting =>
    match x.outcome? with
    | some (.ok r) => (.done r, x.depart)
    | some (.error _) => (.done Exchange.expired, x.depart)
    | none => (if due then .overdue else .waiting, x)
  | .overdue => (.hungUp, x.hangUp)
  | .hungUp => (.noticed, x.giveNotice)
  | .noticed => (.done (x.take.1.getD Exchange.expired), x)
  | .done r => (.done r, x)

/-- The steps that are left once there is something to react to. -/
def stepsLeft : Patience → Nat
  | .waiting => 4
  | .overdue => 3
  | .hungUp => 2
  | .noticed => 1
  | .done _ => 0

/-- Whether the requester's end is shut. -/
def isShut : Patience → Bool
  | .waiting | .overdue => false
  | .hungUp | .noticed | .done _ => true

theorem follows_next (x : Exchange) (due : Bool) (p : Patience) : x.Follows (p.next x due).2 := by
  cases p with
  | waiting =>
      simp only [next]
      split
      · exact x.follows_depart
      · exact x.follows_depart
      · exact .refl x
  | overdue => exact x.follows_hangUp
  | hungUp => exact x.follows_giveNotice
  | noticed | done r => exact .refl x

theorem consistent_next (p : Patience) {x : Exchange} (h : x.Consistent) (due : Bool) :
    (p.next x due).2.Consistent := by
  cases p with
  | waiting =>
      simp only [next]
      split
      · exact h.depart
      · exact h.depart
      · exact h
  | overdue | hungUp | noticed | done => exact ⟨h.pending, h.vacant⟩

/-- The requester of `x` has come as far as it should have, where `due` says that its time is up. -/
structure Honest (due : Prop) (x : Exchange) (p : Patience) : Prop where
  /-- It waits as long as there is time and there may be an answer. -/
  patient : p ≠ .waiting → due ∨ x.hasSender = false
  shut : p.isShut = true → x.isAnswerable = false
  /-- It returns what was handed over, if anything was. -/
  returns : ∀ r, p = .done r → r = x.take.1.getD Exchange.expired

theorem honest_waiting (due : Prop) (x : Exchange) : waiting.Honest due x :=
  ⟨fun h => absurd rfl h, by simp [isShut], by simp⟩

/-- A requester that leaves with the answer, or because there will be none. -/
theorem honest_done {due : Prop} {x : Exchange} {r : Response} (hs : x.hasSender = false)
    (hr : r = x.take.1.getD Exchange.expired) : (done r).Honest due x.depart := by
  refine ⟨fun _ => Or.inr hs, fun _ => by simp [Exchange.isAnswerable, Exchange.depart], ?_⟩
  rintro _ ⟨⟩
  have hleave : x.depart.take.1 = x.take.1 := x.leave_fst
  rw [hleave]
  exact hr

/-- What others do leaves the requester where it is, and does not change what it finds once its
end is shut. -/
theorem Honest.follow {due due' : Prop} {x y : Exchange} {p : Patience} (h : p.Honest due x)
    (hxy : x.Follows y) (hdue : due → due') : p.Honest due' y := by
  refine ⟨?_, fun hp => (hxy.mailbox_eq (h.shut hp)).2, ?_⟩
  · intro hp
    rcases h.patient hp with hd | hs
    · exact Or.inl (hdue hd)
    · refine Or.inr (Bool.eq_false_iff.mpr fun hy => ?_)
      rw [(hxy.sender hy).1] at hs
      cases hs
  · intro r hr
    have hx : x.isAnswerable = false := h.shut (by simp [hr, isShut])
    rw [Exchange.take_fst_of_mailbox_eq (hxy.mailbox_eq hx).1]
    exact h.returns r hr

/-- With each step the requester comes as far as it should. -/
theorem Honest.next {due : Prop} [Decidable due] {x : Exchange} {p : Patience}
    (h : p.Honest due x) (hc : x.Consistent) :
    (p.next x due).1.Honest due (p.next x due).2 := by
  cases p with
  | waiting =>
      cases ho : x.outcome? with
      | none =>
          by_cases hdue : due
          · simp only [Patience.next, ho, hdue, decide_true, if_true]
            exact ⟨fun _ => Or.inl trivial, by simp [isShut], by simp⟩
          · simp only [Patience.next, ho, hdue, decide_false, Bool.false_eq_true, if_false]
            exact honest_waiting False x
      | some outcome =>
          cases outcome with
          | ok r =>
              simp only [Patience.next, ho]
              have hr := Exchange.outcome?_eq_ok ho
              have hs : x.hasSender = false := by
                rw [Bool.eq_false_iff]
                intro hs
                simp [Exchange.take, hc.vacant hs] at hr
              exact honest_done hs (by simp [hr])
          | error fault =>
              simp only [Patience.next, ho]
              obtain ⟨hr, hs⟩ := Exchange.outcome?_eq_error ho
              exact honest_done hs (by simp [hr])
  | overdue =>
      have hpatient := h.patient (by simp)
      exact ⟨fun _ => hpatient, by simp [Patience.next, Exchange.isAnswerable, Exchange.hangUp],
        by simp [Patience.next]⟩
  | hungUp =>
      have hpatient := h.patient (by simp)
      have hshut := h.shut rfl
      exact ⟨fun _ => hpatient, fun _ => hshut, by simp [Patience.next]⟩
  | noticed =>
      have hpatient := h.patient (by simp)
      have hshut := h.shut rfl
      exact ⟨fun _ => hpatient, fun _ => hshut, by simp [Patience.next]⟩
  | done r => exact h

/-- As long as there is something to react to, a step is a step forward. -/
theorem stepsLeft_next {due : Prop} [Decidable due] {x : Exchange}
    (hripe : due ∨ x.hasSender = false) (p : Patience) :
    (p.next x due).1.stepsLeft ≤ p.stepsLeft - 1 := by
  cases p with
  | waiting =>
      simp only [Patience.next]
      split
      · exact Nat.zero_le _
      · exact Nat.zero_le _
      · rename_i ho
        obtain ⟨-, hs⟩ := Exchange.outcome?_eq_none ho
        have hdue : due := hripe.resolve_right (by simp [hs])
        simp [hdue, stepsLeft]
  | overdue | hungUp | noticed | done => exact Nat.le_refl _

theorem eq_done_of_stepsLeft {p : Patience} (h : p.stepsLeft = 0) : ∃ r, p = .done r := by
  cases p with
  | done r => exact ⟨r, rfl⟩
  | _ => simp [stepsLeft] at h

theorem stepsLeft_le (p : Patience) : p.stepsLeft ≤ 4 := by
  cases p <;> simp [stepsLeft]

end Patience

/-! ### Stages keep account of their exchanges -/

namespace Stage

variable {ο α : Type} {t : Stage ο} {key : Nat}

/-- The exchange with a key, held or let go. -/
def exchange? (t : Stage ο) (key : Nat) : Option Exchange :=
  (t.session.held ++ t.released).find? fun x => x.key == key

/-- Changes the exchange with a key, held or let go. -/
def amend (t : Stage ο) (key : Nat) (f : Exchange → Exchange) : Stage ο :=
  { t with
    session := { t.session with
      held := t.session.held.map fun x => if x.key = key then f x else x }
    released := t.released.map fun x => if x.key = key then f x else x }

/-- The exchanges of a stage are told apart by their keys, and what is in their mailboxes was
handed over by senders that are gone. -/
structure Orderly (t : Stage ο) : Prop where
  distinct : ((t.session.held ++ t.released).map Exchange.key).Nodup
  numbered : ∀ x ∈ t.session.held ++ t.released, x.key < t.entered
  consistent : ∀ x ∈ t.session.held ++ t.released, x.Consistent

theorem orderly_start (id : StreamId) (terms : Terms) (sink : Sink)
    (observers : List (Nat × ο)) (nextTicket : Nat) :
    (start id terms sink observers nextTicket).Orderly :=
  ⟨by simp [start], by simp [start], by simp [start]⟩

theorem Orderly.exchange?_eq_some_iff (h : t.Orderly) {x : Exchange} :
    t.exchange? key = some x ↔ x ∈ t.session.held ++ t.released ∧ x.key = key := by
  refine ⟨fun hx => ⟨List.mem_of_find?_eq_some hx, by simpa using List.find?_some hx⟩, ?_⟩
  rintro ⟨hmem, rfl⟩
  exact find?_key h.distinct hmem

/-- To change one exchange in place keeps the account. -/
theorem Orderly.amend (h : t.Orderly) (key : Nat) {f : Exchange → Exchange}
    (hkey : ∀ x, (f x).key = x.key) (hconsistent : ∀ x, x.Consistent → (f x).Consistent) :
    (t.amend key f).Orderly ∧
      ∀ x, t.exchange? key = some x → (t.amend key f).exchange? key = some (f x) := by
  obtain ⟨g, hg⟩ : ∃ g : Exchange → Exchange, g = fun x => if x.key = key then f x else x :=
    ⟨_, rfl⟩
  have hgkey : ∀ x, (g x).key = x.key := by
    intro x
    simp only [hg]
    split
    · exact hkey x
    · rfl
  have hall : (t.amend key f).session.held ++ (t.amend key f).released =
      (t.session.held ++ t.released).map g := by
    rw [List.map_append, hg]
    rfl
  have hafter : (t.amend key f).Orderly := by
    refine ⟨?_, ?_, ?_⟩
    · rw [hall, Session.map_map_of_kept hgkey]
      exact h.distinct
    · rw [hall]
      intro y hy
      obtain ⟨x, hx, rfl⟩ := List.mem_map.mp hy
      rw [hgkey]
      exact h.numbered x hx
    · rw [hall]
      intro y hy
      obtain ⟨x, hx, rfl⟩ := List.mem_map.mp hy
      simp only [hg]
      split
      · exact hconsistent x (h.consistent x hx)
      · exact h.consistent x hx
  refine ⟨hafter, fun x hx => ?_⟩
  obtain ⟨hmem, hxkey⟩ := h.exchange?_eq_some_iff.mp hx
  have hgx : g x = f x := by simp [hg, hxkey]
  refine hafter.exchange?_eq_some_iff.mpr ⟨?_, (hkey x).trans hxkey⟩
  rw [hall, ← hgx]
  exact List.mem_map_of_mem hmem

/-- The exchange with `key` is there and goes on. -/
def Goes (key : Nat) (t t' : Stage ο) : Prop :=
  t'.Orderly ∧ ∀ x, t.exchange? key = some x → ∃ y, t'.exchange? key = some y ∧ x.Follows y

/-- An operation that only moves and serves exchanges keeps the account. -/
theorem Orderly.absorb (h : t.Orderly) (key : Nat) {refused : Nat → Prop} {r : Report ο α}
    (hkeeps : r.Keeps t.session.held refused) (hserves : r.Serves t.session.held)
    (discharged : List ο) : t.Goes key (t.absorb r discharged) := by
  have hperm : ((r.session.held ++ (t.released ++ r.released)).map Exchange.key).Perm
      ((t.session.held ++ t.released).map Exchange.key) := by
    have hkeys := hkeeps.keys.append_right (t.released.map Exchange.key)
    refine List.Perm.trans ?_ (by simpa using hkeys)
    simp only [List.map_append]
    exact List.Perm.append_left _ List.perm_append_comm
  have horigin : ∀ y ∈ r.session.held ++ (t.released ++ r.released),
      ∃ x ∈ t.session.held ++ t.released, x.Served y := by
    have hin : ∀ y ∈ r.session.held ++ r.released,
        ∃ x ∈ t.session.held ++ t.released, x.Served y := by
      intro y hy
      obtain ⟨x, hx, hserved⟩ := hserves y hy
      exact ⟨x, List.mem_append_left _ hx, hserved⟩
    intro y hy
    rcases List.mem_append.mp hy with hy | hy
    · exact hin y (List.mem_append_left _ hy)
    · rcases List.mem_append.mp hy with hy | hy
      · exact ⟨y, List.mem_append_right _ hy, .refl y⟩
      · exact hin y (List.mem_append_right _ hy)
  have hafter : (t.absorb r discharged).Orderly := by
    refine ⟨hperm.nodup_iff.mpr h.distinct, fun y hy => ?_, fun y hy => ?_⟩
    · obtain ⟨x, hx, hserved⟩ := horigin y hy
      rw [hserved.key]
      exact h.numbered x hx
    · obtain ⟨x, hx, hserved⟩ := horigin y hy
      exact hserved.consistent (h.consistent x hx)
  refine ⟨hafter, fun x hx => ?_⟩
  obtain ⟨hmem, hkey⟩ := h.exchange?_eq_some_iff.mp hx
  obtain ⟨y, hy, hykey⟩ := List.mem_map.mp (hperm.mem_iff.mpr (List.mem_map_of_mem hmem))
  obtain ⟨z, hz, hserved⟩ := horigin y hy
  -- the exchange that `y` comes from has the key of `x`, so it is `x`
  have hzx : t.exchange? key = some z :=
    h.exchange?_eq_some_iff.mpr ⟨hz, (hserved.key.symm.trans hykey).trans hkey⟩
  obtain rfl : z = x := Option.some.inj (hzx.symm.trans hx)
  exact ⟨y, hafter.exchange?_eq_some_iff.mpr ⟨hy, hykey.trans hkey⟩, hserved.follows⟩

/-- A new exchange gets a key of its own. -/
theorem Orderly.queue (h : t.Orderly) (key : Nat) {x : Exchange} (hkey : x.key = t.entered)
    (hconsistent : x.Consistent) (admitted : List Nat) :
    (t.queue x admitted).Orderly ∧
      ∀ y, t.exchange? key = some y → (t.queue x admitted).exchange? key = some y := by
  have hperm : (t.session.held ++ [x] ++ t.released).Perm
      (x :: (t.session.held ++ t.released)) := by
    rw [List.append_assoc]
    exact List.perm_middle
  have hafter : (t.queue x admitted).Orderly := by
    refine ⟨(hperm.map Exchange.key).nodup_iff.mpr (List.nodup_cons.mpr ⟨fun hx => ?_,
      h.distinct⟩), fun y hy => ?_, fun y hy => ?_⟩
    · obtain ⟨y, hy, hykey⟩ := List.mem_map.mp hx
      have hlt := h.numbered y hy
      omega
    · rcases List.mem_cons.mp (hperm.mem_iff.mp hy) with rfl | hy
      · show y.key < t.entered + 1
        omega
      · exact Nat.lt_succ_of_lt (h.numbered y hy)
    · rcases List.mem_cons.mp (hperm.mem_iff.mp hy) with rfl | hy
      · exact hconsistent
      · exact h.consistent y hy
  refine ⟨hafter, fun y hy => hafter.exchange?_eq_some_iff.mpr ?_⟩
  obtain ⟨hmem, hykey⟩ := h.exchange?_eq_some_iff.mp hy
  exact ⟨hperm.mem_iff.mpr (List.mem_cons_of_mem x hmem), hykey⟩

theorem Orderly.goes_of_eq (h : t.Orderly) {t' : Stage ο}
    (hheld : t'.session.held = t.session.held) (hreleased : t'.released = t.released)
    (hentered : t'.entered = t.entered) : t.Goes key t' := by
  refine ⟨⟨?_, ?_, ?_⟩, fun x hx => ⟨x, ?_, .refl x⟩⟩
  · rw [hheld, hreleased]; exact h.distinct
  · rw [hheld, hreleased, hentered]; exact h.numbered
  · rw [hheld, hreleased]; exact h.consistent
  · rw [exchange?, hheld, hreleased]; exact hx

theorem Orderly.perform (h : t.Orderly) (key : Nat) (d : Session.Deed ο) :
    t.Goes key (t.perform d) := by
  cases d with
  | enter rid secure past poll now =>
      obtain ⟨x, hx⟩ : ∃ x, x = (Exchange.fresh t.entered rid secure).after past := ⟨_, rfl⟩
      have hkey : x.key = t.entered := by simp [hx, Exchange.fresh]
      have hcons : x.Consistent :=
        hx ▸ (Exchange.consistent_fresh t.entered rid secure).after past
      obtain ⟨hqueued, hsame⟩ := h.queue key hkey hcons
        (if (t.session.accept x poll now).answer.isOk && x.isAnswerable
          then t.entered :: t.admitted else t.admitted)
      obtain ⟨hafter, hgoes⟩ := hqueued.absorb key (t.session.keeps_accept x poll now)
        (t.session.serves_accept x poll now) []
      simp only [Stage.perform, ← hx]
      exact ⟨hafter, fun y hy => hgoes y (hsame y hy)⟩
  | deliver stanza =>
      exact h.absorb key (t.session.keeps_deliver stanza) (t.session.serves_deliver stanza) []
  | release => exact h.absorb key t.session.keeps_release t.session.serves_release []
  | close shutdown =>
      exact h.absorb key (t.session.keeps_close shutdown) (t.session.serves_close shutdown) _
  | depart gone =>
      obtain ⟨hafter, hsame⟩ := h.amend gone (f := Exchange.depart) (fun _ => rfl)
        fun _ hc => hc.depart
      refine ⟨hafter, fun x hx => ?_⟩
      by_cases hgone : gone = key
      · subst hgone
        exact ⟨x.depart, hsame x hx, x.follows_depart⟩
      · obtain ⟨hmem, hxkey⟩ := h.exchange?_eq_some_iff.mp hx
        refine ⟨x, hafter.exchange?_eq_some_iff.mpr ⟨?_, hxkey⟩, .refl x⟩
        have hne : x.key ≠ gone := hxkey ▸ Ne.symm hgone
        refine (List.mem_append.mp hmem).elim (fun hheld => List.mem_append_left _ ?_)
          fun hreleased => List.mem_append_right _ ?_
        · exact List.mem_map.mpr ⟨x, hheld, if_neg hne⟩
        · exact List.mem_map.mpr ⟨x, hreleased, if_neg hne⟩
  | observe o | unobserve ticket => exact h.goes_of_eq rfl rfl rfl

theorem Orderly.step (h : t.Orderly) (key : Nat) (b : Beat ο) : t.Goes key (t.step b) := by
  cases b with
  | call =>
      simp only [Stage.step, Stage.call]
      split <;> exact h.goes_of_eq rfl rfl rfl
  | deed d =>
      simp only [Stage.step]
      split
      · exact h.goes_of_eq rfl rfl rfl
      · exact h.perform key d

theorem Orderly.play (h : t.Orderly) (beats : List (Beat ο)) : (t.play beats).Orderly :=
  List.foldlRecOn beats Stage.step h fun _ ht b _ => (ht.step 0 b).1

end Stage

/-! ### A requester at a stage -/

/-- A stage at some time, and the requester of one of its exchanges. -/
structure Vigil (ο : Type) where
  stage : Stage ο
  now : Nat
  patience : Patience := .waiting

/-- One thing that happens while a requester waits. -/
inductive Tick (ο : Type) where
  /-- Something happens on the stage. -/
  | beat (b : Beat ο)
  /-- Time passes. -/
  | pass (millis : Nat)
  /-- The requester takes its next step. -/
  | turn

/-- The requester acts. -/
def Tick.isTurn {ο : Type} : Tick ο → Bool
  | .turn => true
  | _ => false

namespace Vigil

variable {ο : Type} {key deadline : Nat} {v : Vigil ο} {x : Exchange}

/-- Lets one thing happen, where the requester of the exchange `key` waits until `deadline`. -/
def step (key deadline : Nat) (v : Vigil ο) : Tick ο → Vigil ο
  | .beat b => { v with stage := v.stage.step b }
  | .pass millis => { v with now := v.now + millis }
  | .turn =>
    match v.stage.exchange? key with
    | none => v
    | some x =>
      { v with
        patience := (v.patience.next x (deadline ≤ v.now)).1
        stage := v.stage.amend key fun x => (v.patience.next x (deadline ≤ v.now)).2 }

/-- Lets things happen, one after the other. -/
def play (key deadline : Nat) (v : Vigil ο) (ticks : List (Tick ο)) : Vigil ο :=
  ticks.foldl (step key deadline) v

/-- The requester of the exchange `key`, which is `x` now, has come as far as it should have. -/
structure Faithful (key deadline : Nat) (v : Vigil ο) (x : Exchange) : Prop where
  orderly : v.stage.Orderly
  present : v.stage.exchange? key = some x
  honest : v.patience.Honest (deadline ≤ v.now) x

theorem Faithful.consistent (h : v.Faithful key deadline x) : x.Consistent :=
  h.orderly.consistent x (h.orderly.exchange?_eq_some_iff.mp h.present).1

/-- Whatever happens, the requester comes as far as it should, and its exchange goes on. -/
theorem Faithful.step (h : v.Faithful key deadline x) (tick : Tick ο) :
    ∃ y, (v.step key deadline tick).Faithful key deadline y ∧ x.Follows y := by
  cases tick with
  | beat b =>
      obtain ⟨horderly, hgoes⟩ := h.orderly.step key b
      obtain ⟨y, hy, hxy⟩ := hgoes x h.present
      exact ⟨y, ⟨horderly, hy, h.honest.follow hxy id⟩, hxy⟩
  | pass millis =>
      have hlater : deadline ≤ v.now → deadline ≤ v.now + millis :=
        fun hdue => Nat.le_add_right_of_le hdue
      exact ⟨x, ⟨h.orderly, h.present, h.honest.follow (.refl x) hlater⟩, .refl x⟩
  | turn =>
      obtain ⟨horderly, hsame⟩ := h.orderly.amend key
        (f := fun x => (v.patience.next x (deadline ≤ v.now)).2)
        (fun x => (Patience.follows_next x _ _).key) fun _ hc => Patience.consistent_next _ hc _
      refine ⟨_, ⟨?_, ?_, ?_⟩, Patience.follows_next x (deadline ≤ v.now) v.patience⟩ <;>
        simp only [Vigil.step, h.present]
      · exact horderly
      · exact hsame x h.present
      · exact h.honest.next h.consistent

theorem Faithful.play (h : v.Faithful key deadline x) (ticks : List (Tick ο)) :
    ∃ y, (v.play key deadline ticks).Faithful key deadline y ∧ x.Follows y := by
  induction ticks generalizing v x with
  | nil => exact ⟨x, h, .refl x⟩
  | cons tick ticks ih =>
      obtain ⟨y, hy, hxy⟩ := h.step tick
      obtain ⟨z, hz, hyz⟩ := ih hy
      exact ⟨z, hz, hxy.trans hyz⟩

/-- There is something to react to: the time is up, or the sender has gone. -/
def Ripe (deadline : Nat) (v : Vigil ο) (x : Exchange) : Prop :=
  deadline ≤ v.now ∨ x.hasSender = false

theorem now_le_step (key deadline : Nat) (v : Vigil ο) (tick : Tick ο) :
    v.now ≤ (v.step key deadline tick).now := by
  cases tick with
  | beat b => exact Nat.le_refl _
  | pass millis => exact Nat.le_add_right ..
  | turn =>
      simp only [step]
      split <;> exact Nat.le_refl _

theorem Ripe.step (h : v.Ripe deadline x) {y : Exchange} (hxy : x.Follows y) (tick : Tick ο) :
    (v.step key deadline tick).Ripe deadline y := by
  rcases h with hdue | hs
  · exact Or.inl (Nat.le_trans hdue (now_le_step key deadline v tick))
  · refine Or.inr (Bool.eq_false_iff.mpr fun hy => ?_)
    rw [(hxy.sender hy).1] at hs
    cases hs

/-- Once there is something to react to, every step of the requester brings it nearer to its end,
whatever others do in between. -/
theorem Faithful.stepsLeft_play (h : v.Faithful key deadline x) (hripe : v.Ripe deadline x)
    (ticks : List (Tick ο)) :
    (v.play key deadline ticks).patience.stepsLeft ≤
      v.patience.stepsLeft - ticks.countP Tick.isTurn := by
  induction ticks generalizing v x with
  | nil => exact Nat.le_refl _
  | cons tick ticks ih =>
      obtain ⟨y, hy, hxy⟩ := h.step tick
      have hrest := ih hy (hripe.step hxy tick)
      cases tick with
      | beat b => exact hrest
      | pass millis => exact hrest
      | turn =>
          have hstep := Patience.stepsLeft_next hripe v.patience
          have hpatience : (v.step key deadline .turn).patience =
              (v.patience.next x (deadline ≤ v.now)).1 := by
            simp only [Vigil.step, h.present]
          rw [hpatience] at hrest
          rw [List.countP_cons_of_pos rfl]
          exact Nat.le_trans hrest (by omega)

theorem Faithful.done_of_turns (h : v.Faithful key deadline x) (hripe : v.Ripe deadline x)
    {ticks : List (Tick ο)} (hturns : 4 ≤ ticks.countP Tick.isTurn) :
    ∃ r, (v.play key deadline ticks).patience = .done r := by
  refine Patience.eq_done_of_stepsLeft ?_
  have hleft := h.stepsLeft_play hripe ticks
  have hmost := v.patience.stepsLeft_le
  omega

/-- What was handed over by now is what the requester returns, and it does return. -/
theorem Faithful.returned (h : v.Faithful key deadline x) {r : Response}
    (hr : x.take.1 = some r) (ticks : List (Tick ο)) :
    (∀ r', (v.play key deadline ticks).patience = .done r' → r' = r) ∧
    (4 ≤ ticks.countP Tick.isTurn → (v.play key deadline ticks).patience = .done r) := by
  obtain ⟨y, hy, hxy⟩ := h.play ticks
  have hsame : ∀ r', (v.play key deadline ticks).patience = .done r' → r' = r := by
    intro r' hdone
    rw [hy.honest.returns r' hdone, hxy.take_eq h.consistent hr]
    rfl
  refine ⟨hsame, fun hturns => ?_⟩
  have hs : x.hasSender = false := by
    rw [Bool.eq_false_iff]
    intro hs
    simp [Exchange.take, h.consistent.vacant hs] at hr
  obtain ⟨r', hdone⟩ := h.done_of_turns (Or.inr hs) hturns
  rw [hdone, hsame r' hdone]

/-- A delivery that goes with an exchange puts the stanza into its mailbox. -/
theorem Faithful.sent (h : v.Faithful key deadline x) {stanza : Stanza} {rid : Nat}
    (hidle : v.stage.isBusy = false)
    (hsent : (v.stage.session.deliver stanza).answer = .sent rid) {y : Exchange}
    (htaken : (Session.offer (.delivery [stanza]) v.stage.session.held).taken = some y)
    (hkey : y.key = key) :
    rid = x.rid ∧
      (v.step key deadline (.beat (.deed (.deliver stanza)))).Faithful key deadline
        (x.answered (.delivery [stanza])) := by
  rcases Session.deliver_cases v.stage.session stanza with
    ⟨-, heq⟩ | ⟨-, pre, z, post, hheld, hpre, hz, heq⟩ | ⟨-, -, heq⟩
  · rw [heq] at hsent
    cases hsent
  · -- the exchange that takes the stanza has the key of `x`, so it is `x`
    rw [hheld, Session.offer_of_split hpre hz, Option.some.injEq] at htaken
    subst htaken
    have hzx : v.stage.exchange? key = some z :=
      h.orderly.exchange?_eq_some_iff.mpr ⟨by simp [hheld], hkey⟩
    obtain rfl : z = x := Option.some.inj (hzx.symm.trans h.present)
    have horderly := (h.orderly.step key (.deed (.deliver stanza))).1
    have hdone : v.stage.step (.deed (.deliver stanza)) =
        v.stage.absorb (v.stage.session.deliver stanza) [] := by
      simp [Stage.step, Stage.defers, hidle, Stage.perform]
    rw [hdone] at horderly
    have hmem : z.answered (.delivery [stanza]) ∈
        (v.stage.absorb (v.stage.session.deliver stanza) []).released := by
      simp [Stage.absorb, heq]
    have hpresent := horderly.exchange?_eq_some_iff.mpr ⟨List.mem_append_right _ hmem, hkey⟩
    refine ⟨?_, ?_, ?_, h.honest.follow (Exchange.served_answered hz _).follows id⟩
    · rw [heq] at hsent
      simpa using hsent.symm
    · simp only [Vigil.step, hdone]
      exact horderly
    · simp only [Vigil.step, hdone]
      exact hpresent
  · rw [heq] at hsent
    cases hsent

/-- **A stanza that was sent is never replaced by an empty answer.** The requester of a held
exchange waits for `wait` milliseconds, while anything happens in any order: deliveries, requests
that push others out, the end of the session, departures, the passing of time, and each step of the
requester. At any two moments, `v` and a later one `w`:

* the requester gives up only when its time is up, or when there is no sender left;
* what was handed over by then is what it returns, and it does return after four steps more;
* if nothing was handed over it returns the empty body, and once the time is up it does return after
  four steps more;
* once its end is shut, also in the middle of giving up, nothing is handed over any more: every attempt
  fails, and a stanza that the session sends goes with another exchange;
* so if a delivery is answered with `sent` and this exchange took the stanza, then the response is
  that stanza, with the compression of the exchange, and nothing else. -/
theorem sent_stanza_returned (id : StreamId) (terms : Terms) (sink : Sink)
    (observers : List (Nat × ο)) (nextTicket : Nat) (beats : List (Beat ο)) (key now wait : Nat)
    (hheld : key ∈ ((Stage.start id terms sink observers nextTicket).play
      beats).session.held.map Exchange.key) (before after : List (Tick ο)) :
    let stage := (Stage.start id terms sink observers nextTicket).play beats
    let v := ({ stage, now } : Vigil ο).play key (now + wait) before
    let w := v.play key (now + wait) after
    ∃ x y, v.stage.exchange? key = some x ∧ w.stage.exchange? key = some y ∧
      (v.patience ≠ .waiting → now + wait ≤ v.now ∨ x.hasSender = false) ∧
      (∀ r, x.take.1 = some r → (∀ r', w.patience = .done r' → r' = r) ∧
        (4 ≤ after.countP Tick.isTurn → w.patience = .done r)) ∧
      (y.take.1 = none → (∀ r, w.patience = .done r → r = Exchange.expired) ∧
        (now + wait ≤ v.now → 4 ≤ after.countP Tick.isTurn →
          w.patience = .done Exchange.expired)) ∧
      (v.patience.isShut = true → y.take.1 = x.take.1 ∧
        (∀ body, (y.deliver body).1 = .error (.consumed y.rid)) ∧
        ∀ stanza rid, (w.stage.session.deliver stanza).answer = .sent rid →
          ∃ z ∈ w.stage.session.held, z.key ≠ key ∧ z.rid = rid ∧
            (Session.offer (.delivery [stanza]) w.stage.session.held).taken =
              some (z.answered (.delivery [stanza]))) ∧
      (∀ stanza rid z, v.stage.isBusy = false →
        (v.stage.session.deliver stanza).answer = .sent rid →
        (Session.offer (.delivery [stanza]) v.stage.session.held).taken = some z →
        z.key = key →
        let sent := v.step key (now + wait) (.beat (.deed (.deliver stanza)))
        let w := sent.play key (now + wait) after
        rid = x.rid ∧
        (∀ r, w.patience = .done r → r = ⟨.delivery [stanza], x.compression⟩) ∧
        (4 ≤ after.countP Tick.isTurn →
          w.patience = .done ⟨.delivery [stanza], x.compression⟩)) := by
  intro stage v w
  have horderly : stage.Orderly := (Stage.orderly_start ..).play beats
  obtain ⟨first, hfirst, hkey⟩ := List.mem_map.mp hheld
  have hstart : ({ stage, now } : Vigil ο).Faithful key (now + wait) first :=
    ⟨horderly, horderly.exchange?_eq_some_iff.mpr ⟨List.mem_append_left _ hfirst, hkey⟩,
      Patience.honest_waiting _ _⟩
  obtain ⟨x, hx, -⟩ := hstart.play before
  obtain ⟨y, hy, hxy⟩ := hx.play after
  refine ⟨x, y, hx.present, hy.present, hx.honest.patient, fun r hr => hx.returned hr after,
    ?_, ?_, ?_⟩
  · intro hnone
    have hempty : ∀ r, w.patience = .done r → r = Exchange.expired := by
      intro r hr
      rw [hy.honest.returns r hr, hnone]
      rfl
    refine ⟨hempty, fun hdue hturns => ?_⟩
    obtain ⟨r, hr⟩ := hx.done_of_turns (Or.inl hdue) hturns
    rw [hr, hempty r hr]
  · intro hshut
    have hfrozen := hxy.mailbox_eq (hx.honest.shut hshut)
    refine ⟨Exchange.take_fst_of_mailbox_eq hfrozen.1, fun body => ?_, fun stanza rid hsent => ?_⟩
    · rw [Exchange.deliver_of_not_answerable hfrozen.2]
    · rcases Session.deliver_cases w.stage.session stanza with
        ⟨-, heq⟩ | ⟨-, pre, z, post, hheld, hpre, hz, heq⟩ | ⟨-, -, heq⟩ <;> rw [heq] at hsent
      · cases hsent
      · have hmem : z ∈ w.stage.session.held := by simp [hheld]
        refine ⟨z, hmem, fun hzkey => ?_, by simpa using hsent, ?_⟩
        · have hzy : w.stage.exchange? key = some z :=
            hy.orderly.exchange?_eq_some_iff.mpr ⟨List.mem_append_left _ hmem, hzkey⟩
          obtain rfl : z = y := Option.some.inj (hzy.symm.trans hy.present)
          rw [hfrozen.2] at hz
          cases hz
        · rw [hheld, Session.offer_of_split hpre hz]
      · cases hsent
  · intro stanza rid z hidle hsent htaken hzkey
    obtain ⟨hrid, hafter⟩ := hx.sent hidle hsent htaken hzkey
    exact ⟨hrid, hafter.returned rfl after⟩

/-- A request is held for a minute, and a stanza comes when the minute is up, just before the
requester shuts its end: the stanza is what it returns. -/
theorem returned_when_overdue :
    let stage := (Stage.start ⟨"a"⟩ {} .recorded [] 0).play [.deed (.enter 7 false [] false 0)]
    let v := ({ stage, now := 0 } : Vigil Nat).play 0 (0 + 60000) [.pass 60000, .turn]
    0 ∈ stage.session.held.map Exchange.key ∧ v.patience = .overdue ∧
    ((v.step 0 (0 + 60000) (.beat (.deed (.deliver ⟨"<m/>"⟩)))).play 0 (0 + 60000)
      [.turn, .turn, .turn, .turn]).patience = .done ⟨.delivery [⟨"<m/>"⟩], .disabled⟩ := by
  have hheld : 0 ∈ ((Stage.start ⟨"a"⟩ {} .recorded [] 0 : Stage Nat).play
      [.deed (.enter 7 false [] false 0)]).session.held.map Exchange.key := by decide
  obtain ⟨x, y, hx, -, -, -, -, -, hsent⟩ := sent_stanza_returned ⟨"a"⟩ {} .recorded [] 0
    [.deed (.enter 7 false [] false 0)] 0 0 60000 hheld [.pass 60000, .turn]
    [.turn, .turn, .turn, .turn]
  obtain ⟨-, -, hdone⟩ := hsent ⟨"<m/>"⟩ 7 _ rfl rfl rfl rfl
  obtain rfl := Option.some.inj hx
  exact ⟨hheld, rfl, hdone (by decide)⟩

end Vigil

end HttpBinding
