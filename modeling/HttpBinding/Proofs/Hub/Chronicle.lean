import HttpBinding.Proofs.Hub.Doings

/-!
# HttpBinding.Proofs.Hub.Chronicle

What happens to the countdowns and the registry of a hub, written down as it happens.

The notes of a hub do not say when countdowns are started and stopped, nor which session it is of
whose end the server is told. A `Chronicle` does. It leads from one hub to another by `Deed`s, the
smallest things that are done to the countdowns, the clock, the registry and the notes of beginnings
and ends, and it lists a `Mark` for each of them. Whatever else happens in between is `Calm`.

Design points:

* A countdown that comes to its end is a chapter of its own (`Chronicle.evict`): it falls due, its
  session is ended, which may start and stop countdowns in turn, and only then does it take itself
  off the table.
* A deed is one operation of the hub, done to the hub as it is then, and its mark says what was to
  be seen there. So what a chronicle says of a run is read off the definitions that run.
* Nothing is assumed of who starts and stops countdowns. There may be many tables of them, and
  sessions that nobody registered, some of them with the same identifier.
-/

namespace HttpBinding

/-! ### Marks -/

/-- The note says that the server was told that a session begins or ends. -/
def Note.isLifecycle : Note → Bool
  | .created | .closed _ => true
  | _ => false

/-- The job is that of a countdown. -/
def Job.isEviction : Job → Bool
  | .evict .. => true
  | _ => false

/-- One thing that is done to countdowns, or that the server is told. -/
inductive Mark where
  /-- The countdown `c` is started in the table `t` at some time, or, if its session has ended, what
  ran before is only stopped. -/
  | arm (t : Nat) (c : Countdown) (ended : Bool) (time : Nat)
  | cancel (t : Nat) (id : StreamId)
  | cancelAll (t : Nat)
  /-- A countdown has come to its end, and its session is about to be ended. -/
  | due (t : Nat) (c : Countdown)
  /-- The session of a countdown has been ended, and the countdown takes itself off the table. -/
  | finish (t : Nat) (c : Countdown)
  /-- The server is told that the session `k` begins. -/
  | created (id : StreamId) (k : Nat)
  /-- The server is told that the session `k` ends; whether it has ended by then, and which session
  is registered under its identifier. -/
  | closed (id : StreamId) (k : Nat) (ended : Bool) (registered : Option Nat)
deriving DecidableEq, Repr

/-! ### Sessions -/

/-- What can become of a session: its identifier and its terms stay, and its end is final. -/
structure Session.Persists (s s' : Session Observer) : Prop where
  id : s'.id = s.id
  terms : s'.terms = s.terms
  closed : s.closed = true → s'.closed = true

/-- How many stewards a session has. -/
def Session.stewards (s : Session Observer) : Nat := (s.observers.map Prod.snd).count .steward

namespace Session

variable {s s' s'' : Session Observer}

theorem Persists.refl (s : Session Observer) : s.Persists s := ⟨rfl, rfl, fun h => h⟩

theorem Persists.trans (h : s.Persists s') (h' : s'.Persists s'') : s.Persists s'' :=
  ⟨h'.id.trans h.id, h'.terms.trans h.terms, fun hc => h'.closed (h.closed hc)⟩

theorem Persists.open_of_open (h : s.Persists s') (hopen : s'.closed = false) :
    s.closed = false := by
  cases hc : s.closed with
  | false => rfl
  | true => rw [h.closed hc] at hopen; cases hopen

end Session

namespace Hub

variable {h h' h'' : Hub} {k t : Nat} {s : Session Observer}

/-! ### Calm -/

/-- Nothing happens to the clock, the countdowns and their jobs, or the registry, no session is
lost, and nothing is noted of a beginning or an end. -/
structure Calm (h h' : Hub) : Prop where
  now : h'.now = h.now
  tables : h.timers.length ≤ h'.timers.length
  timer : ∀ t, h'.timer t = h.timer t
  registry : h'.registry = h.registry
  notes : ∃ es, h'.journal = h.journal ++ es ∧ ∀ e ∈ es, e.note.isLifecycle = false
  jobs : ((h'.ready ++ h'.parked).filter Job.isEviction).Perm
    ((h.ready ++ h.parked).filter Job.isEviction)
  parked : ∀ job ∈ h'.parked, job.isEviction = true → job ∈ h.parked
  sessions : ∀ k s, h.session? k = some s → ∃ s', h'.session? k = some s' ∧ s.Persists s'

theorem Calm.of_eq (hnow : h'.now = h.now) (htimers : h'.timers = h.timers)
    (hregistry : h'.registry = h.registry) (hjournal : h'.journal = h.journal)
    (hready : h'.ready = h.ready) (hparked : h'.parked = h.parked)
    (hsessions : ∀ k s, h.session? k = some s → ∃ s', h'.session? k = some s' ∧ s.Persists s') :
    Calm h h' where
  now := hnow
  tables := Nat.le_of_eq (by rw [htimers])
  timer := fun t => by simp only [Hub.timer, htimers]
  registry := hregistry
  notes := ⟨[], by rw [hjournal, List.append_nil], by simp⟩
  jobs := by rw [hready, hparked]
  parked := fun job hjob _ => hparked ▸ hjob
  sessions := hsessions

theorem Calm.trans (hc : Calm h h') (hc' : Calm h' h'') : Calm h h'' where
  now := hc'.now.trans hc.now
  tables := Nat.le_trans hc.tables hc'.tables
  timer := fun t => (hc'.timer t).trans (hc.timer t)
  registry := hc'.registry.trans hc.registry
  notes := by
    obtain ⟨es, hes, hquiet⟩ := hc.notes
    obtain ⟨more, hmore, hquiet'⟩ := hc'.notes
    refine ⟨es ++ more, by rw [hmore, hes, List.append_assoc], fun e he => ?_⟩
    rcases List.mem_append.mp he with he | he
    · exact hquiet e he
    · exact hquiet' e he
  jobs := hc'.jobs.trans hc.jobs
  parked := fun job hjob hev => hc.parked job (hc'.parked job hjob hev) hev
  sessions := by
    intro k s hs
    obtain ⟨s', hs', hp⟩ := hc.sessions k s hs
    obtain ⟨s'', hs'', hp'⟩ := hc'.sessions k s' hs'
    exact ⟨s'', hs'', hp.trans hp'⟩

/-! ### Deeds -/

/-- One thing that is done, and what marks it. -/
inductive Deed (h : Hub) : List Mark → Hub → Prop where
  | calm {h' : Hub} (hc : Calm h h') : Deed h [] h'
  | arm {t k : Nat} {s : Session Observer} (ht : t < h.timers.length)
      (hs : h.session? k = some s) :
    Deed h
      [.arm t ⟨(h.timer t).next, s.id, k, h.now + s.terms.inactivityTimeout⟩ s.shown.closed h.now]
      (h.arm t k)
  | cancel (t : Nat) {k : Nat} {s : Session Observer} (hs : h.session? k = some s) :
    Deed h [.cancel t s.id] (h.cancel t k)
  | cancelAll (t : Nat) : Deed h [.cancelAll t] (h.setTimer t (h.timer t).cancelAll)
  | pass {time : Nat} (hlater : h.now ≤ time) : Deed h [] (h.moveTo time)
  /-- The job of a countdown that was stopped has its last turn. -/
  | gone {t g k : Nat} {rest : List Job} (hready : h.ready.Perm (.evict t g k :: rest))
      (hfind : (h.timer t).find? g = none) : Deed h [] { h with ready := rest }
  /-- The job of a countdown that runs is put aside. -/
  | wait {t g k : Nat} {rest : List Job} {c : Countdown}
      (hready : h.ready.Perm (.evict t g k :: rest)) (hfind : (h.timer t).find? g = some c)
      (hearly : h.now < c.deadline) :
    Deed h [] ({ h with ready := rest }.park (.evict t g k))
  /-- A session is registered, and the server is told of it. -/
  | created {s : Session Observer} (hfree : ∀ j, (s.id, j) ∉ h.registry) :
    Deed h [.created s.id h.sessions.length] (h.announce s)
  /-- A session that has ended is taken off the registry, its countdown is stopped, and the server
  is told. -/
  | closed {k : Nat} {s : Session Observer} (hs : h.session? k = some s)
      (hended : s.closed = true) (hmem : (s.id, k) ∈ h.registry) :
    Deed h
      [.cancel registryTimer s.id, .closed s.id k s.closed ((h.unregister s.id k).lookup s.id)]
      (((h.unregister s.id k).cancel registryTimer k).write s.id
        (.closed ((h.unregister s.id k).lookup s.id).isSome))

/-- What leads from one hub to another, and its marks in order. -/
inductive Chronicle : Hub → List Mark → Hub → Prop where
  | refl (h : Hub) : Chronicle h [] h
  | deed {h h' : Hub} {marks : List Mark} (hd : Deed h marks h') : Chronicle h marks h'
  | trans {h h' h'' : Hub} {marks marks' : List Mark} (hc : Chronicle h marks h')
      (hc' : Chronicle h' marks' h'') : Chronicle h (marks ++ marks') h''
  /-- A countdown comes to its end. Its job is off the queue while its session is ended. -/
  | evict {h h' : Hub} {t g k : Nat} {rest : List Job} {c : Countdown} {marks : List Mark}
      (hready : h.ready.Perm (.evict t g k :: rest)) (hfind : (h.timer t).find? g = some c)
      (hdue : c.deadline ≤ h.now) (hinner : Chronicle { h with ready := rest } marks h')
      (hended : ∀ s, h'.session? c.target = some s → s.closed = true) :
    Chronicle h (.due t c :: (marks ++ [.finish t c]))
      (h'.setTimer t ((h'.timer t).retire c))

/-! ### What deeds do not change -/

@[simp] theorem now_arm (h : Hub) (t k : Nat) : (h.arm t k).now = h.now := by
  obtain ⟨timers, ready, parked, heq⟩ := arm_eq h t k
  rw [heq]

@[simp] theorem now_cancel (h : Hub) (t k : Nat) : (h.cancel t k).now = h.now := by
  obtain ⟨timers, ready, parked, heq⟩ := cancel_eq h t k
  rw [heq]

@[simp] theorem session?_arm (h : Hub) (t j k : Nat) : (h.arm t j).session? k = h.session? k := by
  obtain ⟨timers, ready, parked, heq⟩ := arm_eq h t j
  rw [heq]
  rfl

@[simp] theorem session?_cancel (h : Hub) (t j k : Nat) :
    (h.cancel t j).session? k = h.session? k := by
  obtain ⟨timers, ready, parked, heq⟩ := cancel_eq h t j
  rw [heq]
  rfl

theorem session?_announce {s' : Session Observer} (hs : h.session? k = some s) :
    (h.announce s').session? k = some s := by
  have hlt : k < h.sessions.length := (List.getElem?_eq_some_iff.mp hs).1
  have hold : (h.sessions ++ [s'])[k]? = h.sessions[k]? := List.getElem?_append_left hlt
  exact hold.trans hs

/-- A deed loses no session. -/
theorem Deed.sessions {marks : List Mark} (hd : Deed h marks h') (hs : h.session? k = some s) :
    ∃ s', h'.session? k = some s' ∧ s.Persists s' := by
  cases hd with
  | calm hc => exact hc.sessions k s hs
  | arm => exact ⟨s, by rw [session?_arm, hs], .refl s⟩
  | cancel => exact ⟨s, by rw [session?_cancel, hs], .refl s⟩
  | created => exact ⟨s, session?_announce hs, .refl s⟩
  | closed =>
      refine ⟨s, ?_, .refl s⟩
      show (((h.unregister _ _).cancel registryTimer _).session? k) = _
      rw [session?_cancel]
      exact hs
  | cancelAll | pass | gone | wait => exact ⟨s, hs, .refl s⟩

theorem Deed.now {marks : List Mark} (hd : Deed h marks h') : h.now ≤ h'.now := by
  cases hd with
  | calm hc => exact Nat.le_of_eq hc.now.symm
  | arm => exact Nat.le_of_eq (now_arm ..).symm
  | cancel => exact Nat.le_of_eq (now_cancel ..).symm
  | closed => exact Nat.le_of_eq (now_cancel (h.unregister _ _) ..).symm
  | pass hlater => exact hlater
  | cancelAll | gone | wait | created => exact Nat.le_refl _

section

variable {marks : List Mark}

/-- No session is lost. -/
theorem Chronicle.sessions (hc : Chronicle h marks h') (hs : h.session? k = some s) :
    ∃ s', h'.session? k = some s' ∧ s.Persists s' := by
  induction hc generalizing s with
  | refl h => exact ⟨s, hs, .refl s⟩
  | deed hd => exact hd.sessions hs
  | trans _ _ ih ih' =>
      obtain ⟨s', hs', hp⟩ := ih hs
      obtain ⟨s'', hs'', hp'⟩ := ih' hs'
      exact ⟨s'', hs'', hp.trans hp'⟩
  | evict _ _ _ _ _ ih => exact ih hs

/-- The clock never goes back. -/
theorem Chronicle.now (hc : Chronicle h marks h') : h.now ≤ h'.now := by
  induction hc with
  | refl h => exact Nat.le_refl _
  | deed hd => exact hd.now
  | trans _ _ ih ih' => exact Nat.le_trans ih ih'
  | evict _ _ _ _ _ ih => exact ih

end

end Hub

end HttpBinding
