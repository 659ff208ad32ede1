import Mathlib.Data.List.Perm.Basic
import HttpBinding.Proofs.Hub.Chronicle

/-!
# HttpBinding.Proofs.Hub.Still

What a chronicle need not mention.

Most of what is done to a hub changes neither the registry nor the countdowns: notes are written,
requesters are woken, exchanges and observers come and go. `Still` says so, and also that what is
needed to write a chronicle (`Fit`) is kept: open sessions that have a steward have one, and are
registered.
-/

namespace HttpBinding.Hub

variable {h h' h'' : Hub} {k : Nat} {s s' : Session Observer}

/-! ### What the chronicle needs -/

/-- Names of tables stand for tables, and open sessions with a steward are registered. -/
structure Fit (h : Hub) : Prop where
  registryTable : registryTimer < h.timers.length
  named : ∀ e ∈ h.names.timers, e.2 < h.timers.length
  /-- No two sessions are registered under one identifier. -/
  keys : (h.registry.map Prod.fst).Nodup
  attended : ∀ k s, h.session? k = some s → s.closed = false → 0 < s.stewards →
    (s.id, k) ∈ h.registry
  single : ∀ k s, h.session? k = some s → s.closed = false → s.stewards ≤ 1

/-- The open sessions were there before, and had as many stewards at least. -/
def Attended (h h' : Hub) : Prop :=
  ∀ k s', h'.session? k = some s' → s'.closed = false → s'.stewards = 0 ∨
    ∃ s, h.session? k = some s ∧ s'.id = s.id ∧ s.closed = false ∧ s'.stewards ≤ s.stewards

theorem Attended.of_eq (hsessions : h'.sessions = h.sessions) : Attended h h' := by
  intro k s hs hopen
  have hsame : h.session? k = some s := by
    rw [session?, ← hsessions]
    exact hs
  exact .inr ⟨s, hsame, rfl, hopen, Nat.le_refl _⟩

theorem Fit.of_attended (hf : h.Fit) (htables : h.timers.length ≤ h'.timers.length)
    (hnames : h'.names.timers = h.names.timers) (hregistry : h'.registry = h.registry)
    (hattended : Attended h h') : h'.Fit where
  registryTable := Nat.lt_of_lt_of_le hf.registryTable htables
  named := fun e he => Nat.lt_of_lt_of_le (hf.named e (hnames ▸ he)) htables
  keys := hregistry ▸ hf.keys
  attended := by
    intro k s' hs' hopen hpos
    rcases hattended k s' hs' hopen with hnone | ⟨s, hs, hid, hopen', hle⟩
    · omega
    · rw [hid, hregistry]
      exact hf.attended k s hs hopen' (Nat.lt_of_lt_of_le hpos hle)
  single := by
    intro k s' hs' hopen
    rcases hattended k s' hs' hopen with hnone | ⟨s, hs, -, hopen', hle⟩
    · omega
    · exact Nat.le_trans hle (hf.single k s hs hopen')

/-! ### Nothing happens -/

/-- It is calm, and what the chronicle needs is kept. -/
structure Still (h h' : Hub) : Prop where
  calm : Calm h h'
  fit : h.Fit → h'.Fit

theorem Still.of_eq (hnow : h'.now = h.now) (htimers : h'.timers = h.timers)
    (hregistry : h'.registry = h.registry) (hjournal : h'.journal = h.journal)
    (hready : h'.ready = h.ready) (hparked : h'.parked = h.parked)
    (hnames : h'.names.timers = h.names.timers) (hsessions : h'.sessions = h.sessions) :
    Still h h' where
  calm := .of_eq hnow htimers hregistry hjournal hready hparked fun k s hs =>
    ⟨s, by rw [session?, hsessions]; exact hs, .refl s⟩
  fit := fun hf => hf.of_attended (Nat.le_of_eq (by rw [htimers])) hnames hregistry
    (.of_eq hsessions)

theorem Still.refl (h : Hub) : Still h h := .of_eq rfl rfl rfl rfl rfl rfl rfl rfl

theorem Still.trans (hs : Still h h') (hs' : Still h' h'') : Still h h'' :=
  ⟨hs.calm.trans hs'.calm, fun hf => hs'.fit (hs.fit hf)⟩

theorem Still.foldl {α : Type} {f : Hub → α → Hub} (hf : ∀ h a, Still h (f h a)) (as : List α)
    (h : Hub) : Still h (as.foldl f h) := by
  induction as generalizing h with
  | nil => exact .refl h
  | cons a as ih => exact (hf h a).trans (ih (f h a))

/-- Jobs come and go, but not those of countdowns, and none of those is put aside. -/
theorem Still.of_jobs (ready parked : List Job)
    (hjobs : ((ready ++ parked).filter Job.isEviction).Perm
      ((h.ready ++ h.parked).filter Job.isEviction))
    (hparked : ∀ job ∈ parked, job.isEviction = true → job ∈ h.parked) :
    Still h { h with ready, parked } where
  calm :=
    ⟨rfl, Nat.le_refl _, fun _ => rfl, rfl, ⟨[], (List.append_nil _).symm, by simp⟩, hjobs, hparked,
      fun _ s hs => ⟨s, hs, .refl s⟩⟩
  fit := fun hf => hf.of_attended (Nat.le_refl _) rfl rfl (.of_eq rfl)

theorem still_wake (h : Hub) (p : Job → Bool) : Still h (h.wake p) :=
  .of_jobs _ _ ((perm_wake h p).filter _) fun _ hjob _ => (List.mem_filter.mp hjob).1

theorem still_spawn (h : Hub) {job : Job} (hjob : job.isEviction = false) :
    Still h (h.spawn job) := by
  refine Still.of_jobs (h.ready ++ [job]) h.parked ?_ fun j hj _ => hj
  simp [hjob]

theorem still_park (h : Hub) {job : Job} (hjob : job.isEviction = false) :
    Still h (h.park job) := by
  refine Still.of_jobs h.ready (h.parked ++ [job]) ?_ fun j hj hev => ?_
  · simp [hjob]
  · rcases List.mem_append.mp hj with hj | hj
    · exact hj
    · rw [List.mem_singleton.mp hj, hjob] at hev
      cases hev

theorem perm_eraseIdx {α : Type} {as : List α} {i : Nat} {a : α} (hi : as[i]? = some a) :
    as.Perm (a :: as.eraseIdx i) := by
  obtain ⟨hlt, rfl⟩ := List.getElem?_eq_some_iff.mp hi
  exact (List.getElem_cons_eraseIdx_perm hlt).symm

theorem still_unqueue {i : Nat} {job : Job} (hi : h.ready[i]? = some job)
    (hjob : job.isEviction = false) : Still h { h with ready := h.ready.eraseIdx i } := by
  refine Still.of_jobs (h.ready.eraseIdx i) h.parked ?_ fun j hj _ => hj
  have hall := (((perm_eraseIdx hi).append_right h.parked).filter Job.isEviction).symm
  simpa [hjob] using hall

/-- Sessions may be replaced, as long as they persist and get no stewards. -/
theorem Still.of_sessions (sessions : List (Session Observer)) (loose : List Exchange)
    (hsessions : ∀ k s, h.session? k = some s →
      ∃ s', sessions[k]? = some s' ∧ s.Persists s' ∧ s'.stewards ≤ s.stewards)
    (hnew : ∀ k s', sessions[k]? = some s' → (h.session? k).isSome ∨ s'.stewards = 0) :
    Still h { h with sessions, loose } where
  calm := .of_eq rfl rfl rfl rfl rfl rfl fun k s hs => by
    obtain ⟨s', hs', hp, -⟩ := hsessions k s hs
    exact ⟨s', hs', hp⟩
  fit := fun hf => hf.of_attended (Nat.le_refl _) rfl rfl fun k s' hs' hopen => by
    rcases hnew k s' hs' with hold | hnone
    · obtain ⟨s, hs⟩ := Option.isSome_iff_exists.mp hold
      obtain ⟨s'', hs'', hp, hle⟩ := hsessions k s hs
      obtain rfl := Option.some.inj (hs''.symm.trans hs')
      exact .inr ⟨s, hs, hp.id, hp.open_of_open hopen, hle⟩
    · exact .inl hnone

/-- One session is replaced. -/
theorem still_setSession (hs : h.session? k = some s) (hp : s.Persists s')
    (hle : s'.stewards ≤ s.stewards) : Still h (h.setSession k s') := by
  refine Still.of_sessions (h.setSession k s').sessions h.loose (fun j u hu => ?_)
    fun j u hu => ?_
  · show ∃ u', (h.setSession k s').session? j = some u' ∧ _
    by_cases hj : k = j
    · subst hj
      obtain rfl := Option.some.inj (hs.symm.trans hu)
      exact ⟨s', session?_setSession_self hs s', hp, hle⟩
    · exact ⟨u, by rw [session?_setSession, if_neg hj, hu], .refl u, Nat.le_refl _⟩
  · left
    have hlt : j < (h.setSession k s').sessions.length := (List.getElem?_eq_some_iff.mp hu).1
    have hlength : (h.setSession k s').sessions.length = h.sessions.length := by simp [setSession]
    simp [session?, hlength ▸ hlt]

theorem still_mapExchange (h : Hub) (key : Nat) (f : Exchange → Exchange) :
    Still h (h.mapExchange key f) := by
  refine Still.of_sessions _ _ (fun k s hs => ?_) fun k s' hs' => ?_
  · have hold : h.sessions[k]? = some s := hs
    rw [List.getElem?_map, hold]
    exact ⟨_, rfl, ⟨rfl, rfl, fun hc => hc⟩, Nat.le_refl _⟩
  · left
    rw [List.getElem?_map, Option.map_eq_some_iff] at hs'
    obtain ⟨s, hs, -⟩ := hs'
    exact Option.isSome_iff_exists.mpr ⟨s, hs⟩

theorem still_addSession (h : Hub) (hnone : s.stewards = 0) : Still h (h.addSession s) := by
  refine Still.of_sessions (h.sessions ++ [s]) h.loose (fun k u hu => ?_) fun k u hu => ?_
  · have hlt : k < h.sessions.length := (List.getElem?_eq_some_iff.mp hu).1
    exact ⟨u, (List.getElem?_append_left hlt).trans hu, .refl u, Nat.le_refl _⟩
  · rcases Nat.lt_or_ge k h.sessions.length with hlt | hge
    · left
      simp [session?, hlt]
    · right
      have hu' : u = s := by
        rw [List.getElem?_append_right hge] at hu
        simpa using List.mem_of_getElem? hu
      rw [hu', hnone]

theorem still_write (h : Hub) (id : StreamId) {note : Note} (hnote : note.isLifecycle = false) :
    Still h (h.write id note) where
  calm :=
    ⟨rfl, Nat.le_refl _, fun _ => rfl, rfl, ⟨_, rfl, by simpa using hnote⟩, .refl _, fun _ h _ => h,
      fun _ s hs => ⟨s, hs, .refl s⟩⟩
  fit := fun hf => hf.of_attended (Nat.le_refl _) rfl rfl (.of_eq rfl)

theorem still_serve (h : Hub) (key : Nat) (f : Exchange → Exchange) : Still h (h.serve key f) := by
  have hserved := still_mapExchange h key f
  simp only [Hub.serve]
  split
  · split
    · exact hserved
    · exact hserved.trans (still_wake ..)
  · exact hserved

theorem still_departRequester (h : Hub) (key : Nat) : Still h (h.departRequester key) :=
  (still_mapExchange ..).trans (still_wake ..)

theorem still_newExchange (h : Hub) (rid : Nat) (secure : Bool) :
    Still h (h.newExchange rid secure).1 :=
  .of_eq rfl rfl rfl rfl rfl rfl rfl rfl

theorem still_takeLoose (h : Hub) (key : Nat) : Still h (h.takeLoose key) :=
  .of_eq rfl rfl rfl rfl rfl rfl rfl rfl

/-- Once the session is replaced, it is still. -/
theorem still_absorb_rest {α : Type} (h : Hub) (k : Nat) (r : Report Observer α) :
    Still { h.setSession k r.session with loose := h.loose ++ r.released } (h.absorb k r) := by
  have hwoken := Still.foldl (f := fun b (x : Exchange) => b.wake (Job.awaitsAnswer x.key))
    (fun b x => still_wake b _) r.released
    { h.setSession k r.session with loose := h.loose ++ r.released }
  unfold absorb
  split
  · exact hwoken.trans (Still.foldl (fun b stanza => still_write b r.session.id rfl) _ _)
  · exact hwoken

/-- A report is put into effect. -/
theorem still_absorb {α : Type} (hs : h.session? k = some s) {r : Report Observer α}
    (hp : s.Persists r.session) (hle : r.session.stewards ≤ s.stewards) :
    Still h (h.absorb k r) := by
  have hset : Still h { h.setSession k r.session with loose := h.loose ++ r.released } :=
    (still_setSession hs hp hle).trans (.of_eq rfl rfl rfl rfl rfl rfl rfl rfl)
  exact hset.trans (still_absorb_rest h k r)

/-- Of an operation that does not end the session, the session keeps its observers. -/
theorem still_absorb_of_fits {α : Type} (hs : h.session? k = some s) {r : Report Observer α}
    (hfits : r.Fits s) : Still h (h.absorb k r) :=
  still_absorb hs ⟨hfits.id, hfits.terms, fun hc => hfits.closed.trans hc⟩
    (Nat.le_of_eq (by rw [Session.stewards, Session.stewards, hfits.observers]))

theorem still_reclaim (h : Hub) (k : Nat) : Still h (h.reclaim k) := by
  unfold reclaim
  split
  · exact .refl h
  · rename_i s hs
    split
    · exact .refl h
    · exact still_absorb hs ⟨rfl, rfl, fun hc => hc⟩ (Nat.le_refl _)

theorem still_addRecorder (h : Hub) (k : Nat) (label : String) {o : Observer}
    (ho : o ≠ .steward) : Still h (h.addRecorder k label o) := by
  unfold addRecorder
  split
  · exact .refl h
  · rename_i s hs
    have hobserved : Still h (h.setSession k (s.observe o).2) :=
      still_setSession hs ⟨rfl, rfl, fun hc => hc⟩
        (by simp [Session.stewards, Session.observe, ho])
    exact hobserved.trans (.of_eq rfl rfl rfl rfl rfl rfl rfl rfl)

theorem still_removeRecorder (h : Hub) (k : Nat) (label : String) :
    Still h (h.removeRecorder k label).1 := by
  unfold removeRecorder
  split
  · rename_i ticket s _ hs
    exact still_setSession hs ⟨rfl, rfl, fun hc => hc⟩
      ((List.filter_sublist.map Prod.snd).count_le _)
  · exact .refl h

theorem still_writeHeard (h : Hub) (k : Nat) (occasion : Occasion) (label : String)
    (rid : Option Nat) : Still h (h.writeHeard k occasion label rid) := by
  unfold writeHeard
  split
  · exact .refl h
  · exact still_write _ _ rfl

end HttpBinding.Hub
