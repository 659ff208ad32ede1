import HttpBinding.Proofs.Hub.Doings

/-!
# HttpBinding.Proofs.Hub.News

What a recorder of a hub hears of a session accounts for what the session holds.

The `news` under a label are the events that recorders with this label have heard of. If only one
recorder has the label, and nobody is going to bring in another one, then its news since any moment
tally with what its session held then and holds now (`Account`), whatever happens in between to this
session and to others. So each exchange that the session lets go of is reported closed once.
-/

namespace HttpBinding

/-- The event of which somebody with the label was told. -/
def Telling.event? (label : String) (t : Telling) : Option Event :=
  if t.label = label then
    match t.occasion, t.rid with
    | .opened, some rid => some (.opened rid)
    | .closed, some rid => some (.closed rid)
    | _, _ => none
  else none

/-- The observer goes by the label. -/
def Observer.isCalled (label : String) : Observer → Bool
  | .recorder own _ => own == label
  | _ => false

/-- The observer may bring in somebody who goes by the label. -/
def Observer.brings (label : String) : Observer → Bool
  | .recorder _ actions => actions.any fun a => a.2 == .add label
  | _ => false

/-- The observer has to do with the label. -/
def Observer.uses (label : String) (o : Observer) : Bool := o.isCalled label || o.brings label

/-- The observers of a session that have to do with the label. -/
def Session.users (label : String) (s : Session Observer) : List (Nat × Observer) :=
  s.observers.filter fun o => o.2.uses label

/-- Nothing changes about the session but who observes it, and nobody comes who has to do with the
label. -/
structure Session.Fades (label : String) (s t : Session Observer) : Prop where
  closed : t.closed = s.closed
  rids : t.held.map Exchange.rid = s.held.map Exchange.rid
  users : (t.users label).Sublist (s.users label)

namespace Session

variable {label : String} {s t u : Session Observer}

theorem Fades.refl (label : String) (s : Session Observer) : s.Fades label s :=
  ⟨rfl, rfl, .refl _⟩

theorem Fades.trans (hf : s.Fades label t) (hf' : t.Fades label u) : s.Fades label u :=
  ⟨hf'.closed.trans hf.closed, hf'.rids.trans hf.rids, hf'.users.trans hf.users⟩

theorem fades_observe (s : Session Observer) {o : Observer} (ho : o.uses label = false) :
    s.Fades label (s.observe o).2 :=
  ⟨rfl, rfl, by simp [users, observe, ho]⟩

theorem fades_unobserve (label : String) (s : Session Observer) (ticket : Nat) :
    s.Fades label (s.unobserve ticket).2 :=
  ⟨rfl, rfl, List.filter_sublist.filter _⟩

theorem Fades.of_outline (h : t.outline = s.outline) : s.Fades label t := by
  have hobservers : t.observers = s.observers := congrArg Outline.observers h
  refine ⟨congrArg Outline.closed h, congrArg Outline.rids h, ?_⟩
  rw [Session.users, Session.users, hobservers]

end Session

namespace Hub

variable {label : String} {es fs : List Event} {p : Observer → Prop} {k j : Nat} {id : StreamId}
  {h h' h'' : Hub} {s t : Session Observer}

/-- The events of which recorders with the label were told, in order. -/
def news (h : Hub) (label : String) : List Event := h.tellings.filterMap (Telling.event? label)

/-! ### What passes between two operations -/

/-- Recorders with the label hear of the events `es`. Nothing changes about the sessions but who
observes them, and nobody comes who has to do with the label. -/
structure Passes (label : String) (es : List Event) (h h' : Hub) : Prop where
  news : h'.news label = h.news label ++ es
  length : h'.sessions.length = h.sessions.length
  sessions : ∀ j t, h'.session? j = some t → ∃ s, h.session? j = some s ∧ s.Fades label t

theorem Passes.of_eq (hsessions : h'.sessions = h.sessions) (htold : h'.tellings = h.tellings) :
    Passes label [] h h' := by
  refine ⟨by simp [Hub.news, htold], by rw [hsessions], fun j t ht => ⟨t, ?_, .refl label t⟩⟩
  rw [← ht, session?, session?, hsessions]

/-- What no session notices passes without news. -/
theorem Passes.of_quiet (hq : ∀ k, Quiet k h h') : Passes label [] h h' :=
  .of_eq (List.ext_getElem? fun k => (hq k).session) (hq 0).tellings

theorem Passes.refl (label : String) (h : Hub) : Passes label [] h h := .of_eq rfl rfl

theorem Passes.trans (hp : Passes label es h h') (hp' : Passes label fs h' h'') :
    Passes label (es ++ fs) h h'' := by
  refine ⟨by rw [hp'.news, hp.news, List.append_assoc], hp'.length.trans hp.length, ?_⟩
  intro j u hu
  obtain ⟨t, ht, htu⟩ := hp'.sessions j u hu
  obtain ⟨s, hs, hst⟩ := hp.sessions j t ht
  exact ⟨s, hs, hst.trans htu⟩

/-- What is there stays there. -/
theorem Passes.session (hp : Passes label es h h') (hs : h.session? k = some s) :
    ∃ t, h'.session? k = some t ∧ s.Fades label t := by
  obtain ⟨hlt, -⟩ := List.getElem?_eq_some_iff.mp hs
  obtain ⟨t, ht⟩ : ∃ t, h'.session? k = some t :=
    ⟨_, List.getElem?_eq_getElem (hp.length ▸ hlt)⟩
  obtain ⟨u, hu, hut⟩ := hp.sessions k t ht
  rw [hs] at hu
  obtain rfl := Option.some.inj hu
  exact ⟨t, ht, hut⟩

theorem passes_setSession (hs : h.session? k = some s) (hf : s.Fades label t) :
    Passes label [] h (h.setSession k t) := by
  refine ⟨(List.append_nil _).symm, List.length_set, fun j u hu => ?_⟩
  by_cases hj : j = k
  · subst hj
    rw [session?_setSession_self hs] at hu
    obtain rfl := Option.some.inj hu
    exact ⟨s, hs, hf⟩
  · rw [session?_setSession, if_neg (Ne.symm hj)] at hu
    exact ⟨u, hu, .refl label u⟩

theorem tellings_eq_of_idle {notes : List Entry} (hjournal : h'.journal = h.journal ++ notes)
    (hidle : ∀ e ∈ notes, e.note.isIdle = true) : h'.tellings = h.tellings := by
  have hnone : notes.filterMap (fun e => e.note.telling?) = [] := by
    refine List.filterMap_eq_nil_iff.mpr fun e he => ?_
    have hnote := hidle e he
    cases hn : e.note <;> simp_all [Note.isIdle, Note.telling?]
  simp [tellings, hjournal, hnone]

theorem Mute.passes (hm : Mute h h') : Passes label [] h h' := by
  obtain ⟨notes, hjournal, hidle⟩ := hm.notes
  refine ⟨by simp [Hub.news, tellings_eq_of_idle hjournal hidle], ?_, fun j t ht => ?_⟩
  · simpa using congrArg List.length hm.outlines
  · have hout := congrArg (fun os => os[j]?) hm.outlines
    simp only [List.getElem?_map] at hout
    rw [session?] at ht
    rw [ht] at hout
    obtain ⟨s, hs, heq⟩ := Option.map_eq_some_iff.mp hout.symm
    exact ⟨s, hs, .of_outline heq.symm⟩

/-! ### What recorders do -/

/-- Only an ended session answers, and stays as it is. -/
theorem mute_ifEnded {α : Type} (h : Hub) (k : Nat) {op : Session Observer → Report Observer α}
    (hop : ∀ s, s.closed = true → (op s).session = s) (answer : α → Answer) :
    Mute h (h.ifEnded k op answer).1 := by
  unfold ifEnded
  split
  · exact .refl h
  · rename_i s hs
    split
    · rename_i hc
      exact mute_absorb_of_eq hs (hop s hc)
    · exact .refl h

theorem passes_act (h : Hub) (k : Nat) {a : Action} (ha : a ≠ .add label) :
    Passes label [] h (h.act k a).1 := by
  cases a with
  | remove other =>
      show Passes label [] h (h.removeRecorder k other).1
      unfold removeRecorder
      split
      · rename_i ticket s _ hs
        exact passes_setSession hs (s.fades_unobserve label ticket)
      · exact .refl label h
  | add other =>
      show Passes label [] h (h.addRecorder k other (.recorder other []))
      unfold addRecorder
      split
      · exact .refl label h
      · rename_i s hs
        have hne : other ≠ label := fun heq => ha (congrArg Action.add heq)
        have hunused : (Observer.recorder other []).uses label = false := by
          simp [Observer.uses, Observer.isCalled, Observer.brings, hne]
        exact (passes_setSession hs (s.fades_observe hunused)).trans (.of_eq rfl rfl)
  | arm timer session => exact .of_quiet fun _ => quiet_byTimer quiet_arm ..
  | cancel timer session => exact .of_quiet fun _ => quiet_byTimer quiet_cancel ..
  | deliver stanza =>
      exact (mute_ifEnded h k (fun s hc => session_deliver_of_closed hc stanza) _).passes
  | release => exact (mute_ifEnded h k (fun s hc => session_release_of_closed hc) _).passes
  | close => exact (mute_ifEnded h k (fun s hc => (s.close_of_closed hc true).1) _).passes
  | enter rid poll =>
      have hnew : Mute h ((h.newExchange rid true).1.takeLoose (h.newExchange rid true).2.key) :=
        .of_eq rfl rfl rfl
      exact (hnew.trans (mute_ifEnded _ k
        (fun s hc => session_accept_of_closed hc _ poll _) _)).passes

theorem passes_actAll (h : Hub) (k : Nat) (occasion : Occasion) (own : String)
    {actions : List (Occasion × Action)} (hbrings : ∀ a ∈ actions, a.2 ≠ .add label) :
    Passes label [] h (h.actAll k occasion own actions) := by
  refine List.foldlRecOn (motive := fun b => Passes label [] h b) actions _ (.refl label h) ?_
  intro b hb a ha
  have hact : Passes label [] b (b.act k a.2).1 := passes_act b k (hbrings a ha)
  split
  · split
    · rename_i heq _
      rw [heq] at hact
      exact hb.trans (hact.trans (mute_write _ _ rfl).passes)
    · rename_i heq _
      rw [heq] at hact
      exact hb.trans hact
  · exact hb

/-- What is written down by somebody who is told of something. -/
theorem passes_writeHeard (hs : h.session? k = some s) (occasion : Occasion) (own : String)
    (rid : Option Nat) :
    Passes label (Telling.event? label ⟨occasion, own, rid, s.shown⟩).toList h
      (h.writeHeard k occasion own rid) := by
  have hwrite : h.writeHeard k occasion own rid =
      h.write s.id (.heard occasion own rid s.shown.held s.shown.closed (h.armed? s.id)) := by
    simp [writeHeard, hs]
  rw [hwrite]
  refine ⟨?_, rfl, fun j t ht => ⟨t, ht, .refl label t⟩⟩
  cases hevent : Telling.event? label ⟨occasion, own, rid, s.shown⟩ <;>
    simp [Hub.news, tellings, Hub.write, Note.telling?, hevent]

theorem ne_add_of_brings {own : String} {actions : List (Occasion × Action)}
    (hbrings : (Observer.recorder own actions).brings label = false) :
    ∀ a ∈ actions, a.2 ≠ .add label := by
  simpa [Observer.brings] using hbrings

/-- An event is news to those who go by the label. -/
theorem passes_hear (hs : h.session? k = some s) (e : Event) {o : Observer}
    (hbrings : o.brings label = false) :
    Passes label (if o.isCalled label then [e] else []) h (hear k h (e, o)) := by
  cases o with
  | silent => exact .refl label h
  | steward =>
      have hquiet : ∀ j, Quiet j h (hear k h (e, .steward)) := by
        intro j
        cases e with
        | opened rid => exact quiet_cancel ..
        | closed rid =>
            simp only [hear]
            split
            · exact quiet_arm ..
            · exact .refl j h
      exact .of_quiet hquiet
  | recorder own actions =>
      have htold : Passes label _ h (h.writeHeard k e.occasion own (some e.rid)) :=
        passes_writeHeard hs ..
      have hheard := htold.trans
        (passes_actAll _ k e.occasion own (ne_add_of_brings hbrings))
      have hevent : (Telling.event? label ⟨e.occasion, own, some e.rid, s.shown⟩).toList =
          if (Observer.recorder own actions).isCalled label then [e] else [] := by
        cases e <;> by_cases hown : own = label <;>
          simp [Telling.event?, Observer.isCalled, Event.occasion, Event.rid, hown]
      rw [List.append_nil, hevent] at hheard
      exact hheard

/-- The end is not among the news. -/
theorem passes_hearEnd (hscene : Scene k id h) (close : Hub → Nat → Bool → Hub) {o : Observer}
    (hbrings : o.brings label = false) : Passes label [] h (hearEnd close k h o) := by
  obtain ⟨s, hs, hid⟩ := hscene.session
  cases o with
  | silent => exact .refl label h
  | steward =>
      obtain ⟨hnone, -⟩ := hscene.removed (fun _ => false) fun _ => false
      obtain ⟨h₁, hh₁⟩ : ∃ h₁, h₁ = (h.unregister s.id k).cancel registryTimer k := ⟨_, rfl⟩
      have hremoved : Passes label [] h h₁ := by
        have hoff : Passes label [] h (h.unregister s.id k) := .of_eq rfl rfl
        rw [hh₁]
        exact hoff.trans (.of_quiet fun _ => quiet_cancel ..)
      have hnoted : Passes label [] h₁ (h₁.write s.id (.closed (h₁.lookup s.id).isSome)) :=
        .of_eq rfl (by simp [tellings, Hub.write, Note.telling?])
      rw [← hid, ← hh₁] at hnone
      have hasked : Passes label [] (h₁.write s.id (.closed (h₁.lookup s.id).isSome))
          (hearEnd close k h .steward) := by
        simp only [hearEnd, hs, ← hh₁]
        rw [consult_of_unknown (h := h₁.write s.id _) close hnone .closed, List.foldl_map]
        have hcounted : Mute (h₁.write s.id (.closed (h₁.lookup s.id).isSome))
            { h₁.write s.id (.closed (h₁.lookup s.id).isSome) with
              calls := (h₁.write s.id (.closed (h₁.lookup s.id).isSome)).calls + 1 } :=
          .of_eq rfl rfl rfl
        exact (hcounted.trans (Mute.foldl (fun b d => mute_write b s.id (by rfl)) _ _)).passes
      exact (hremoved.trans hnoted).trans hasked
  | recorder own actions =>
      have htold : Passes label _ h (h.writeHeard k .ended own none) := passes_writeHeard hs ..
      have hheard := htold.trans
        (passes_actAll _ k .ended own (ne_add_of_brings hbrings))
      have hevent : Telling.event? label ⟨.ended, own, none, s.shown⟩ = none := by
        simp [Telling.event?]
      rw [hevent] at hheard
      exact hheard

/-! ### Operations -/

/-- After the operation itself, those who go by the label hear of its events. -/
theorem passes_conclude {α : Type} (hs : h.session? k = some s) {r : Report Observer α}
    (hbrings : ∀ o ∈ r.session.observers, o.2.brings label = false) :
    Passes label ((r.notices.filter fun n => n.2.isCalled label).map Prod.fst)
      { h.setSession k r.session with loose := h.loose ++ r.released } (h.conclude k r) := by
  have hset : ({ h.setSession k r.session with loose := h.loose ++ r.released } : Hub).session? k =
      some r.session := session?_setSession_self hs r.session
  have htold : ∀ (notices : List (Event × Observer)) (b : Hub) (t : Session Observer),
      (∀ n ∈ notices, n.2.brings label = false) → b.session? k = some t →
      Passes label ((notices.filter fun n => n.2.isCalled label).map Prod.fst) b
        (notices.foldl (hear k) b) := by
    intro notices
    induction notices with
    | nil => exact fun b _ _ _ => .refl label b
    | cons n notices ih =>
        intro b t hn ht
        have hfirst := passes_hear ht n.1 (hn n List.mem_cons_self)
        obtain ⟨u, hu, -⟩ := hfirst.session ht
        have hrest := hfirst.trans
          (ih _ u (fun m hm => hn m (List.mem_cons_of_mem n hm)) hu)
        rw [List.foldl_cons, List.filter_cons]
        cases hcalled : n.2.isCalled label <;> simpa [hcalled] using hrest
  have hquiet : Passes label [] _ (h.absorb k r) := (mute_absorb h k r).passes
  obtain ⟨t, ht, -⟩ := hquiet.session hset
  refine hquiet.trans (htold r.notices _ t (fun n hn => ?_) ht)
  obtain ⟨e, -, he⟩ := List.mem_flatMap.mp hn
  obtain ⟨o, ho, rfl⟩ := List.mem_map.mp he
  exact hbrings o ho

/-- After the operation itself, the end of a session is no news. -/
theorem passes_close (hscene : Scene k id h) (hs : h.session? k = some s)
    (hbrings : ∀ o ∈ s.observers, o.2.brings label = false) (shutdown : Bool) :
    Passes label [] { h.setSession k (s.close shutdown).session with
      loose := h.loose ++ (s.close shutdown).released } (h.close k shutdown) := by
  have hop := operates_close s shutdown
  obtain rfl := hscene.id_eq hs
  have hset : Scene k s.id { h.setSession k (s.close shutdown).session with
      loose := h.loose ++ (s.close shutdown).released } :=
    ⟨(hscene.setSession hop.id).of_eq rfl rfl, hscene.sole, hscene.oneTable⟩
  have habsorb := trifles_absorb (p := fun _ => True) h k (s.close shutdown)
  rw [hop.id] at habsorb
  rw [close_eq_foldl hs]
  refine (List.foldlRecOn (motive := fun b => Passes label [] _ b ∧ Scene k s.id b) _ _
    ⟨(mute_absorb h k _).passes, habsorb.scene hset⟩ ?_).1
  rintro b ⟨hpassed, hb⟩ o ho
  obtain ⟨e, he, rfl⟩ := mem_answer_close ho
  have hheard : Trifles (fun _ => True) k s.id b
      (hearEnd (closeWithin h.sessions.length) k b e.2) :=
    trifles_hearEnd hb.toPlaced hb.sole _ fun _ _ _ _ _ _ _ _ => trivial
  exact ⟨hpassed.trans (passes_hearEnd hb _ (hbrings e he)), hheard.scene hb⟩

/-! ### Accounts -/

/-- The observer `o` of the session `k` is the only one that has to do with the label. What it has
heard of since it had heard `told` and the session held `before` tallies with what is held now, as long
as the session is open and the observer is there. -/
structure Account (label : String) (k : Nat) (o : Nat × Observer) (before : List Nat)
    (told : List Event) (h : Hub) : Prop where
  called : o.2.isCalled label = true
  modest : o.2.brings label = false
  there : ∃ s, h.session? k = some s
  own : ∀ s, h.session? k = some s → (s.users label).Sublist [o]
  others : ∀ j s, h.session? j = some s → j ≠ k → s.users label = []
  tallies : ∀ s, h.session? k = some s → s.closed = false → s.users label = [o] →
    ∃ es, h.news label = told ++ es ∧ Tallies before es (s.held.map Exchange.rid)

variable {o : Nat × Observer} {before : List Nat} {told : List Event}

theorem Account.brings (ha : Account label k o before told h) (hs : h.session? j = some s) :
    ∀ x ∈ s.observers, x.2.brings label = false := by
  intro x hx
  cases hbrings : x.2.brings label with
  | false => rfl
  | true =>
      have huser : x ∈ s.users label :=
        List.mem_filter.mpr ⟨hx, by simp [Observer.uses, hbrings]⟩
      by_cases hj : j = k
      · subst hj
        obtain rfl := List.mem_singleton.mp ((ha.own s hs).subset huser)
        rw [ha.modest] at hbrings
        cases hbrings
      · rw [ha.others j s hs hj] at huser
        cases huser

/-- Something is done to the session `j`, which was `s`, and then those who go by the label hear of
it. -/
theorem Account.operate (ha : Account label k o before told h) (hs : h.session? j = some s)
    {s' : Session Observer} {loose : List Exchange} (hstay : s'.observers.Sublist s.observers)
    (hp : Passes label es { h.setSession j s' with loose } h') (helse : j ≠ k → es = [])
    (hself : j = k → s'.closed = false → s.users label = [o] →
      s.closed = false ∧ Tallies (s.held.map Exchange.rid) es (s'.held.map Exchange.rid)) :
    Account label k o before told h' := by
  obtain ⟨g, hg⟩ : ∃ g : Hub, g = { h.setSession j s' with loose } := ⟨_, rfl⟩
  have hgs : g.session? j = some s' := by
    rw [hg]
    exact session?_setSession_self hs s'
  have hother : ∀ i, i ≠ j → g.session? i = h.session? i := by
    intro i hi
    rw [hg]
    exact (session?_setSession h j i s').trans (if_neg (Ne.symm hi))
  have hnews : g.news label = h.news label := by
    rw [hg]
    rfl
  rw [← hg] at hp
  -- nobody who has to do with the label has come to any session
  have hwas : ∀ i t, h'.session? i = some t →
      ∃ u, h.session? i = some u ∧ (t.users label).Sublist (u.users label) := by
    intro i t ht
    obtain ⟨u, hu, hf⟩ := hp.sessions i t ht
    by_cases hi : i = j
    · subst hi
      rw [hgs] at hu
      obtain rfl := Option.some.inj hu
      exact ⟨s, hs, hf.users.trans (hstay.filter _)⟩
    · exact ⟨u, (hother i hi).symm.trans hu, hf.users⟩
  refine ⟨ha.called, ha.modest, ?_, fun t ht => ?_, fun i t ht hi => ?_, fun t ht hopen huses => ?_⟩
  · obtain ⟨u, hu⟩ := ha.there
    by_cases hj : k = j
    · subst hj
      exact (hp.session hgs).imp fun _ => And.left
    · exact (hp.session ((hother k hj).trans hu)).imp fun _ => And.left
  · obtain ⟨u, hu, hsub⟩ := hwas k t ht
    exact hsub.trans (ha.own u hu)
  · obtain ⟨u, hu, hsub⟩ := hwas i t ht
    exact List.sublist_nil.mp (ha.others i u hu hi ▸ hsub)
  · obtain ⟨u, hu, hsub⟩ := hwas k t ht
    have huses' : u.users label = [o] := (ha.own u hu).antisymm (huses ▸ hsub)
    obtain ⟨v, hv, hf⟩ := hp.sessions k t ht
    have hvopen : v.closed = false := hf.closed.symm.trans hopen
    by_cases hj : j = k
    · subst hj
      rw [hgs] at hv
      obtain rfl := Option.some.inj hv
      rw [hs] at hu
      obtain rfl := Option.some.inj hu
      obtain ⟨hsopen, htallies⟩ := hself rfl hvopen huses'
      obtain ⟨fs, hfs, hbefore⟩ := ha.tallies s hs hsopen huses'
      refine ⟨fs ++ es, by rw [hp.news, hnews, hfs, List.append_assoc], ?_⟩
      rw [hf.rids]
      exact hbefore.append htallies
    · rw [hother k (Ne.symm hj), hu] at hv
      obtain rfl := Option.some.inj hv
      obtain ⟨fs, hfs, hbefore⟩ := ha.tallies u hu hvopen huses'
      refine ⟨fs, by rw [hp.news, hnews, helse hj, hfs, List.append_nil], ?_⟩
      rw [hf.rids]
      exact hbefore

/-- Nothing is done to any session. -/
theorem Account.passes (ha : Account label k o before told h) (hp : Passes label [] h h') :
    Account label k o before told h' := by
  obtain ⟨s, hs⟩ := ha.there
  have hsame : Passes label [] { h.setSession k s with loose := h.loose } h' := by
    rw [setSession_self hs]
    exact hp
  exact ha.operate hs (.refl _) hsame (fun _ => rfl) fun _ hopen _ => ⟨hopen, .refl _⟩

/-- Those who go by the label hear of each event once each. -/
theorem heard_notices {α : Type} (r : Report Observer α) :
    (r.notices.filter fun n => n.2.isCalled label).map Prod.fst =
      r.events.flatMap fun e =>
        ((r.session.users label).filter fun x => x.2.isCalled label).map fun _ => e := by
  have hcalled : (r.session.users label).filter (fun x => x.2.isCalled label) =
      r.session.observers.filter fun x => x.2.isCalled label := by
    rw [Session.users, List.filter_filter]
    refine List.filter_congr fun x _ => ?_
    cases hx : x.2.isCalled label <;> simp [Observer.uses, hx]
  rw [hcalled, Report.notices]
  induction r.events with
  | nil => rfl
  | cons e events ih =>
      rw [List.flatMap_cons, List.flatMap_cons, List.filter_append, List.map_append, ih,
        List.filter_map, List.map_map]
      rfl

/-- A session begins, and has no observers yet. -/
theorem Account.born (ha : Account label k o before told h) (hobservers : s.observers = []) :
    Account label k o before told (h.announce s) := by
  have hnews : (h.announce s).news label = h.news label := by
    simp [Hub.news, tellings, announce, addSession, Hub.write, Note.telling?]
  have hold : ∀ j t, (h.announce s).session? j = some t → h.session? j = some t ∨ t = s := by
    intro j t ht
    have hmem : (h.sessions ++ [s])[j]? = some t := ht
    rw [List.getElem?_append] at hmem
    split at hmem
    · exact Or.inl hmem
    · exact Or.inr (List.mem_singleton.mp (List.mem_of_getElem? hmem))
  obtain ⟨u, hu⟩ := ha.there
  have hsame : (h.announce s).session? k = some u := by
    obtain ⟨hlt, -⟩ := List.getElem?_eq_some_iff.mp hu
    exact (List.getElem?_append_left hlt).trans hu
  have hnobody : s.users label = [] := by simp [Session.users, hobservers]
  refine ⟨ha.called, ha.modest, ⟨u, hsame⟩, fun t ht => ?_, fun j t ht hj => ?_, fun t ht => ?_⟩
  · rw [hsame] at ht
    exact ha.own t (hu.trans ht)
  · rcases hold j t ht with ht | rfl
    · exact ha.others j t ht hj
    · exact hnobody
  · rw [hsame] at ht
    rw [hnews]
    exact ha.tallies t (hu.trans ht)

/-- **Whatever is done, the account stays right.** -/
theorem Account.doing (ha : Account label k o before told h)
    (hd : Doing (fun o => o.uses label = false) h h') : Account label k o before told h' := by
  cases hd with
  | mute hm => exact ha.passes hm.passes
  | born _ _ hobservers _ => exact ha.born hobservers
  | observe hs ho => exact ha.passes (passes_setSession hs (Session.fades_observe _ ho))
  | unobserve hs ticket =>
      exact ha.passes (passes_setSession hs (Session.fades_unobserve label _ ticket))
  | @tell j s _ hs hopen α r hfits _ htallies =>
      have hsame : r.session.users label = s.users label := by
        simp [Session.users, hfits.observers]
      have hbrings : ∀ x ∈ r.session.observers, x.2.brings label = false := by
        rw [hfits.observers]
        exact ha.brings hs
      refine ha.operate hs (hfits.observers ▸ .refl _) (passes_conclude hs hbrings) ?_ ?_
      · intro hj
        rw [heard_notices, hsame, ha.others j s hs hj]
        simp
      · intro _ _ huses
        rw [heard_notices, hsame, huses]
        simpa [ha.called] using ⟨hopen, htallies⟩
  | close hscene hs hopen shutdown =>
      refine ha.operate hs (operates_close _ shutdown).observers
        (passes_close hscene hs (ha.brings hs) shutdown) (fun _ => rfl) fun _ hc => ?_
      rw [Session.closed_close] at hc
      cases hc

/-! ### Runs -/

/-- Nobody has to do with the label but a recorder that begins to listen next and does `actions`, and
nobody comes who has by what happens after that. -/
structure Exclusive (label : String) (actions : List (Occasion × Action)) (ms : List Move)
    (h : Hub) : Prop where
  unused : ∀ s ∈ h.sessions, s.users label = []
  modest : ∀ a ∈ actions, a.2 ≠ .add label
  newcomers : ∀ m ∈ ms, ∀ o ∈ m.newcomer?, o.uses label = false

variable {still : List Nat} {actions : List (Occasion × Action)} {ms : List Move}

theorem Exclusive.account (he : Exclusive label actions ms h) (hs : h.session? k = some s) :
    Account label k (s.nextTicket, .recorder label actions) (s.held.map Exchange.rid)
      (h.news label) (h.move (.listen k label actions)) := by
  have hadded : (h.move (.listen k label actions)).session? k =
      some (s.observe (.recorder label actions)).2 := by
    simp only [Hub.move, addRecorder, hs]
    exact session?_setSession_self hs _
  have hnews : (h.move (.listen k label actions)).news label = h.news label := by
    simp only [Hub.move, addRecorder, hs]
    rfl
  have huses : (s.observe (.recorder label actions)).2.users label =
      [(s.nextTicket, .recorder label actions)] := by
    have hnone : s.observers.filter (fun o => o.2.uses label) = [] :=
      he.unused s (mem_sessions hs)
    rw [Session.users, Session.observe, List.filter_append, hnone]
    simp [Observer.uses, Observer.isCalled]
  refine ⟨by simp [Observer.isCalled], by simpa [Observer.brings] using he.modest,
    ⟨_, hadded⟩, fun t ht => ?_, fun j t ht hj => ?_, fun t ht _ _ => ?_⟩
  · rw [hadded] at ht
    obtain rfl := Option.some.inj ht
    rw [huses]
  · have hsame : h.session? j = some t := by
      simp only [Hub.move, addRecorder, hs] at ht
      exact ((session?_setSession h k j _).trans (if_neg (Ne.symm hj))).symm.trans ht
    exact he.unused t (mem_sessions hsame)
  · rw [hadded] at ht
    obtain rfl := Option.some.inj ht
    exact ⟨[], by rw [hnews, List.append_nil], .refl _⟩

/-- **What a recorder hears accounts for what its session holds**, from when it begins to listen and
whatever happens then, if nobody else has to do with its label. -/
theorem InStep.news_tally (hi : InStep still h) (he : Exclusive label actions ms h)
    (hs : h.session? k = some s)
    (ht : (h.play (.listen k label actions :: ms)).session? k = some t) (hopen : t.closed = false)
    (hlistens : ∃ o ∈ t.observers, o.2 = .recorder label actions) :
    ∃ es, (h.play (.listen k label actions :: ms)).news label = h.news label ++ es ∧
      Tallies (s.held.map Exchange.rid) es (t.held.map Exchange.rid) := by
  have hdoings : Doings (fun o => o.uses label = false) (h.move (.listen k label actions))
      (h.play (.listen k label actions :: ms)) :=
    (hi.move (.listen k label actions)).inStep.doings_play he.newcomers
  have haccount := hdoings.keep (fun hstep ha => Account.doing ha hstep) (he.account hs)
  refine haccount.tallies t ht hopen ?_
  obtain ⟨o, ho, heq⟩ := hlistens
  have huser : o ∈ t.users label :=
    List.mem_filter.mpr ⟨ho, by simp [heq, Observer.uses, Observer.isCalled]⟩
  have hown := haccount.own t ht
  obtain rfl := List.mem_singleton.mp (hown.subset huser)
  exact hown.antisymm (List.singleton_sublist.mpr huser)

/-- Whoever began to listen to the session `k` in the run `ms` from `start`, and was the only one to
have to do with its label then and since, has heard since then what tallies with what the session held
then and, being `s`, holds now. -/
def Reported (k : Nat) (start : Hub) (ms : List Move) (s : Session Observer) : Prop :=
  ∀ ⦃before after : List Move⦄ ⦃label : String⦄ ⦃actions : List (Occasion × Action)⦄ ⦃h : Hub⦄
    ⦃past : Session Observer⦄, ms = before ++ .listen k label actions :: after →
    h = start.play before → h.session? k = some past → Exclusive label actions after h →
    (∃ o ∈ s.observers, o.2 = .recorder label actions) →
    ∃ es, (start.play ms).news label = h.news label ++ es ∧
      Tallies (past.held.map Exchange.rid) es (s.held.map Exchange.rid)

theorem InStep.reported_play (hi : InStep still h) {ms : List Move}
    (hs : (h.play ms).session? k = some s) (hopen : s.closed = false) : Reported k h ms s := by
  intro before after label actions b past hms hb hpast he hlistens
  have hplay : h.play ms = b.play (.listen k label actions :: after) := by
    rw [hms, hb, Hub.play, List.foldl_append]
    rfl
  rw [hplay] at hs ⊢
  have hib := hi.play before
  rw [← hb] at hib
  exact hib.news_tally he hpast hs hopen hlistens

end Hub

end HttpBinding
