import HttpBinding.Proofs.Hub.Strokes

/-!
# HttpBinding.Proofs.Hub.Lifetimes

What the server is told of sessions: beginnings and ends take turns.

A session is taken off the registry before the server is told of its end, and the server is told of
the end of registered sessions only. So what the registry says of an identifier is what the server
was told last (`Notified.lifetimes`), and a session of whose end the server was told is not
registered any more, nor will it be again. `Notified` is kept by every deed of a chronicle
(`Notified.deed`), and so along every chronicle (`Chronicle.notified`).

The journal has the calls of the server, with identifiers but without sessions, and the chronicle
has them with their sessions. `lifecycle_notices_alternate` says of both what is true of them.
-/

namespace HttpBinding

/-! ### Lifetimes -/

/-- What the server is told of sessions with the identifier: one begins (`true`), or one ends. -/
def Mark.told? (id : StreamId) : Mark → Option (Bool × Nat)
  | .created other k => if other = id then some (true, k) else none
  | .closed other k _ _ => if other = id then some (false, k) else none
  | _ => none

/-- The session of whose end the server is told. -/
def Mark.closed? : Mark → Option Nat
  | .closed _ k _ _ => some k
  | _ => none

/-- What is written down of a mark. -/
def Mark.note? : Mark → Option (String × Note)
  | .created id _ => some (id.text, .created)
  | .closed id _ _ registered => some (id.text, .closed registered.isSome)
  | _ => none

/-- What an entry says, if it is about a call that tells of a beginning or an end. -/
def Entry.lifecycle? (e : Entry) : Option (String × Note) :=
  if e.note.isLifecycle then some (e.about, e.note) else none

/-- Sessions begin and end in turns, the first of them begins, and what ends is what began last. The
session that has begun and has not ended is told along with them. -/
inductive Lifetimes : List (Bool × Nat) → Option Nat → Prop where
  | nil : Lifetimes [] none
  | begun {l : List (Bool × Nat)} (hl : Lifetimes l none) (k : Nat) :
    Lifetimes (l ++ [(true, k)]) (some k)
  | ended {l : List (Bool × Nat)} {k : Nat} (hl : Lifetimes l (some k)) :
    Lifetimes (l ++ [(false, k)]) none

section

variable {l : List (Bool × Nat)} {now? : Option Nat}

theorem Lifetimes.length (hl : Lifetimes l now?) :
    l.length % 2 = if now?.isSome then 1 else 0 := by
  induction hl with
  | nil => rfl
  | begun _ k ih =>
      rw [List.length_append]
      simp at ih ⊢
      omega
  | ended _ ih =>
      rw [List.length_append]
      simp at ih ⊢
      omega

/-- The beginnings are at the even places. -/
theorem Lifetimes.alternate (hl : Lifetimes l now?) :
    l.map Prod.fst = (List.range l.length).map fun i => decide (i % 2 = 0) := by
  induction hl with
  | nil => rfl
  | begun hl k ih =>
      have hlength := hl.length
      simp only [List.map_append, List.length_append, List.length_singleton, List.range_succ, ih]
      simp [hlength]
  | ended hl ih =>
      have hlength := hl.length
      simp only [List.map_append, List.length_append, List.length_singleton, List.range_succ, ih]
      simp [hlength]

end

namespace Hub

variable {h h' : Hub} {k : Nat} {s : Session Observer} {id : StreamId} {past ms : List Mark}

/-! ### The registry -/

theorem lookup_announce (h : Hub) (s : Session Observer) (id : StreamId) :
    (h.announce s).lookup id = if s.id = id then some h.sessions.length else h.lookup id := by
  show ((s.id, h.sessions.length) :: h.registry).lookup id = _
  rw [List.lookup_cons]
  by_cases heq : s.id = id
  · simp [heq]
  · have hne : (id == s.id) = false := by simpa using fun hid => heq hid.symm
    rw [hne, if_neg heq]
    rfl

theorem session?_announce_self (h : Hub) (s : Session Observer) :
    (h.announce s).session? h.sessions.length = some s :=
  List.getElem?_concat_length

theorem lookup_unregister (hkeys : (h.registry.map Prod.fst).Nodup) (hmem : (id, k) ∈ h.registry)
    (other : StreamId) :
    (h.unregister id k).lookup other = if id = other then none else h.lookup other := by
  have hkeys' : ((h.unregister id k).registry.map Prod.fst).Nodup :=
    (List.filter_sublist.map Prod.fst).nodup hkeys
  by_cases heq : id = other
  · subst heq
    rw [if_pos rfl]
    exact lookup_eq_none (not_mem_unregister hkeys hmem)
  · rw [if_neg heq]
    refine Option.ext fun j => ?_
    rw [lookup, lookup, lookup_iff_mem hkeys', lookup_iff_mem hkeys]
    have hne : ¬ (other = id) := fun h => heq h.symm
    simp [unregister, hne]

/-! ### The invariant -/

/-- What the server was told is in the journal, and agrees with the registry. -/
structure Notified (past : List Mark) (h : Hub) : Prop where
  keys : (h.registry.map Prod.fst).Nodup
  registered : ∀ id k, (id, k) ∈ h.registry → ∃ s, h.session? k = some s ∧ s.id = id
  /-- The session that is registered under an identifier is the one that has begun and of whose end
  the server was not told. -/
  lifetimes : ∀ id, Lifetimes (past.filterMap (Mark.told? id)) (h.lookup id)
  /-- The session had ended by then, and nothing was registered under its identifier. -/
  ended : ∀ id k e r, .closed id k e r ∈ past → e = true ∧ r = none
  /-- A session of whose end the server was told is not registered. -/
  gone : ∀ k ∈ past.filterMap Mark.closed?, (∃ s, h.session? k = some s ∧ s.closed = true) ∧
    ∀ id, (id, k) ∉ h.registry
  once : (past.filterMap Mark.closed?).Nodup
  journal : h.journal.filterMap Entry.lifecycle? = past.filterMap Mark.note?

/-- Nothing is done to the registry, and the server is told nothing. -/
theorem Notified.aside (hn : Notified past h) (hregistry : h'.registry = h.registry)
    (hsessions : ∀ k s, h.session? k = some s → ∃ s', h'.session? k = some s' ∧ s.Persists s')
    (hjournal : h'.journal.filterMap Entry.lifecycle? = h.journal.filterMap Entry.lifecycle?)
    (hms : ∀ m ∈ ms, m.note? = none) : Notified (past ++ ms) h' := by
  have htold : ∀ id, ms.filterMap (Mark.told? id) = [] := fun id =>
    List.filterMap_eq_nil_iff.mpr fun m hm => by
      have hnone := hms m hm
      cases m <;> simp_all [Mark.told?, Mark.note?]
  have hclosed : ms.filterMap Mark.closed? = [] := List.filterMap_eq_nil_iff.mpr fun m hm => by
    have hnone := hms m hm
    cases m <;> simp_all [Mark.closed?, Mark.note?]
  have hnotes : ms.filterMap Mark.note? = [] := List.filterMap_eq_nil_iff.mpr hms
  refine ⟨hregistry ▸ hn.keys, fun id k hmem => ?_, fun id => ?_, fun id k e r hmem => ?_,
    fun k hk => ?_, ?_, ?_⟩
  · obtain ⟨s, hs, hid⟩ := hn.registered id k (hregistry ▸ hmem)
    obtain ⟨s', hs', hp⟩ := hsessions k s hs
    exact ⟨s', hs', hp.id.trans hid⟩
  · rw [List.filterMap_append, htold, List.append_nil, lookup, hregistry]
    exact hn.lifetimes id
  · rcases List.mem_append.mp hmem with hmem | hmem
    · exact hn.ended id k e r hmem
    · cases hms _ hmem
  · rw [List.filterMap_append, hclosed, List.append_nil] at hk
    obtain ⟨⟨s, hs, hc⟩, hnone⟩ := hn.gone k hk
    obtain ⟨s', hs', hp⟩ := hsessions k s hs
    exact ⟨⟨s', hs', hp.closed hc⟩, hregistry ▸ hnone⟩
  · rw [List.filterMap_append, hclosed, List.append_nil]
    exact hn.once
  · rw [List.filterMap_append, hnotes, List.append_nil, hjournal]
    exact hn.journal

/-- Nothing is done to sessions and the registry, and nothing is written down. -/
theorem Notified.of_eq (hn : Notified past h) (hregistry : h'.registry = h.registry)
    (hsessions : h'.sessions = h.sessions) (hjournal : h'.journal = h.journal)
    (hms : ∀ m ∈ ms, m.note? = none) : Notified (past ++ ms) h' :=
  hn.aside hregistry (fun _ s hs => ⟨s, by rw [session?, hsessions]; exact hs, .refl s⟩)
    (by rw [hjournal]) hms

/-! ### One deed -/

/-- A session begins, under an identifier that was free. -/
theorem Notified.created (hn : Notified past h) (hfree : ∀ j, (s.id, j) ∉ h.registry) :
    Notified (past ++ [.created s.id h.sessions.length]) (h.announce s) := by
  have hold : ∀ {k u}, h.session? k = some u → k ≠ h.sessions.length := by
    intro k u hu
    exact Nat.ne_of_lt (List.getElem?_eq_some_iff.mp hu).1
  refine ⟨?_, fun id k hmem => ?_, fun id => ?_, fun id k e r hmem => ?_, fun k hk => ?_, ?_, ?_⟩
  · refine List.nodup_cons.mpr ⟨fun hmem => ?_, hn.keys⟩
    obtain ⟨e, he, heq⟩ := List.mem_map.mp hmem
    have hid : e.1 = s.id := heq
    exact hfree e.2 (hid ▸ he)
  · rcases List.mem_cons.mp hmem with heq | hmem
    · obtain ⟨rfl, rfl⟩ := Prod.mk.inj heq
      exact ⟨s, session?_announce_self h s, rfl⟩
    · obtain ⟨u, hu, hid⟩ := hn.registered id k hmem
      exact ⟨u, session?_announce hu, hid⟩
  · rw [List.filterMap_append, lookup_announce]
    have hbefore := hn.lifetimes id
    by_cases heq : s.id = id
    · subst heq
      rw [lookup_eq_none hfree] at hbefore
      simpa [Mark.told?] using hbefore.begun h.sessions.length
    · simpa [Mark.told?, heq] using hbefore
  · exact hn.ended id k e r (by simpa using hmem)
  · have hk' : k ∈ past.filterMap Mark.closed? := by simpa [Mark.closed?] using hk
    obtain ⟨⟨u, hu, hc⟩, hnone⟩ := hn.gone k hk'
    refine ⟨⟨u, session?_announce hu, hc⟩, fun id hmem => ?_⟩
    rcases List.mem_cons.mp hmem with heq | hmem
    · exact hold hu (Prod.mk.inj heq).2
    · exact hnone id hmem
  · simpa [List.filterMap_cons, Mark.closed?] using hn.once
  · have hwritten : (h.announce s).journal = h.journal ++ [⟨h.now, s.id.text, .created⟩] := rfl
    rw [hwritten, List.filterMap_append, List.filterMap_append, hn.journal]
    rfl

/-- A session that has ended is taken off the registry, and then the server is told. -/
theorem Notified.closed (hn : Notified past h) (hs : h.session? k = some s)
    (hended : s.closed = true) (hmem : (s.id, k) ∈ h.registry) :
    Notified (past ++ [.cancel registryTimer s.id,
        .closed s.id k s.closed ((h.unregister s.id k).lookup s.id)])
      (((h.unregister s.id k).cancel registryTimer k).write s.id
        (.closed ((h.unregister s.id k).lookup s.id).isSome)) := by
  obtain ⟨b, hb⟩ : ∃ b, b = ((h.unregister s.id k).cancel registryTimer k).write s.id
      (.closed ((h.unregister s.id k).lookup s.id).isSome) := ⟨_, rfl⟩
  have hnone : (h.unregister s.id k).lookup s.id = none := by
    rw [lookup_unregister hn.keys hmem, if_pos rfl]
  have hregistry : b.registry = (h.unregister s.id k).registry := by
    rw [hb]
    exact registry_cancel ..
  have hsessions : ∀ j, b.session? j = h.session? j := by
    intro j
    rw [hb]
    exact session?_cancel ..
  have hjournal : b.journal = h.journal ++ [⟨h.now, s.id.text, .closed false⟩] := by
    obtain ⟨timers, ready, parked, heq⟩ := cancel_eq (h.unregister s.id k) registryTimer k
    rw [hb, heq, hnone]
    rfl
  rw [← hb]
  have hkept : ∀ {id j}, (id, j) ∈ b.registry → (id, j) ∈ h.registry ∧ (id, j) ≠ (s.id, k) := by
    intro id j hj
    rw [hregistry] at hj
    exact ⟨(List.mem_filter.mp hj).1, by simpa using (List.mem_filter.mp hj).2⟩
  -- no other identifier is registered for this session
  have howner : ∀ id, (id, k) ∉ b.registry := by
    intro id hj
    obtain ⟨hj, hne⟩ := hkept hj
    obtain ⟨u, hu, hid⟩ := hn.registered id k hj
    obtain rfl := Option.some.inj (hs.symm.trans hu)
    exact hne (by rw [hid])
  have hfresh : k ∉ past.filterMap Mark.closed? := fun hk => (hn.gone k hk).2 s.id hmem
  have htold : ∀ id, [.cancel registryTimer s.id,
      .closed s.id k s.closed ((h.unregister s.id k).lookup s.id)].filterMap (Mark.told? id) =
      if s.id = id then [(false, k)] else [] := by
    intro id
    by_cases heq : s.id = id <;> simp [List.filterMap_cons, Mark.told?, heq]
  refine ⟨?_, fun id j hj => ?_, fun id => ?_, fun id j e r hj => ?_, fun j hj => ?_, ?_, ?_⟩
  · rw [hregistry]
    exact (List.filter_sublist.map Prod.fst).nodup hn.keys
  · rw [hsessions]
    exact hn.registered id j (hkept hj).1
  · have hbefore := hn.lifetimes id
    have hlookup : b.lookup id = if s.id = id then none else h.lookup id := by
      rw [lookup, hregistry]
      exact lookup_unregister hn.keys hmem id
    rw [List.filterMap_append, hlookup, htold]
    by_cases heq : s.id = id
    · subst heq
      rw [lookup, (lookup_iff_mem hn.keys).mpr hmem] at hbefore
      rw [if_pos rfl, if_pos rfl]
      exact hbefore.ended
    · rw [if_neg heq, if_neg heq, List.append_nil]
      exact hbefore
  · rcases List.mem_append.mp hj with hj | hj
    · exact hn.ended id j e r hj
    · simp only [List.mem_cons, reduceCtorEq, Mark.closed.injEq, List.not_mem_nil, or_false,
        false_or] at hj
      obtain ⟨-, -, rfl, rfl⟩ := hj
      exact ⟨hended, hnone⟩
  · rw [List.filterMap_append] at hj
    rw [hsessions]
    rcases List.mem_append.mp hj with hj | hj
    · exact ⟨(hn.gone j hj).1, fun id hin => (hn.gone j hj).2 id (hkept hin).1⟩
    · obtain rfl : j = k := List.mem_singleton.mp hj
      exact ⟨⟨s, hs, hended⟩, howner⟩
  · rw [List.filterMap_append]
    refine List.nodup_append.mpr ⟨hn.once, List.nodup_singleton k, fun j hj j' hj' heq => ?_⟩
    obtain rfl : j' = k := List.mem_singleton.mp hj'
    exact hfresh (heq ▸ hj)
  · rw [hjournal, List.filterMap_append, List.filterMap_append, hn.journal, hnone]
    rfl

theorem filterMap_lifecycle_append {es : List Entry} (hquiet : ∀ e ∈ es, e.note.isLifecycle = false)
    (journal : List Entry) :
    (journal ++ es).filterMap Entry.lifecycle? = journal.filterMap Entry.lifecycle? := by
  have hnone : es.filterMap Entry.lifecycle? = [] := List.filterMap_eq_nil_iff.mpr fun e he => by
    simp [Entry.lifecycle?, hquiet e he]
  rw [List.filterMap_append, hnone, List.append_nil]

/-- **Every deed keeps the invariant.** -/
theorem Notified.deed (hn : Notified past h) (hd : Deed h ms h') : Notified (past ++ ms) h' := by
  cases hd with
  | calm hc =>
      obtain ⟨es, hes, hquiet⟩ := hc.notes
      refine hn.aside hc.registry hc.sessions ?_ (by simp)
      rw [hes, filterMap_lifecycle_append hquiet]
  | @arm t k =>
      obtain ⟨timers, ready, parked, heq⟩ := arm_eq h t k
      rw [heq]
      exact hn.of_eq rfl rfl rfl (by simp [Mark.note?])
  | @cancel t k =>
      obtain ⟨timers, ready, parked, heq⟩ := cancel_eq h t k
      rw [heq]
      exact hn.of_eq rfl rfl rfl (by simp [Mark.note?])
  | cancelAll t => exact hn.of_eq rfl rfl rfl (by simp [Mark.note?])
  | pass | gone | wait => exact hn.of_eq rfl rfl rfl (by simp)
  | created hfree => exact hn.created hfree
  | closed hs hended hmem => exact hn.closed hs hended hmem

/-- **The server is told of sessions what the registry says of them.** -/
theorem Chronicle.notified (hc : Chronicle h ms h') (hn : Notified past h) :
    Notified (past ++ ms) h' := by
  induction hc generalizing past with
  | refl h => rwa [List.append_nil]
  | deed hd => exact hn.deed hd
  | trans _ _ ih ih' =>
      rw [← List.append_assoc]
      exact ih' (ih hn)
  | @evict h h' t g k rest c marks _ _ _ _ _ ih =>
      have hdue : Notified (past ++ [.due t c]) { h with ready := rest } :=
        hn.of_eq rfl rfl rfl (by simp [Mark.note?])
      have hended : Notified ((past ++ [.due t c]) ++ marks ++ [.finish t c])
          (h'.setTimer t ((h'.timer t).retire c)) :=
        (ih hdue).of_eq rfl rfl rfl (by simp [Mark.note?])
      simpa using hended

theorem notified_start (settings : Settings) (server : Server) (sink : Sink)
    (ids : Nat → StreamId) : Notified [] (Script.withService settings server sink ids) :=
  ⟨List.nodup_nil, by simp [Script.withService], fun _ => .nil, by simp, by simp, List.nodup_nil,
    rfl⟩

/-! ### The journal -/

/-- What the server was told about the sessions with an identifier, in order. -/
def notices (h : Hub) (id : StreamId) : List Note :=
  (h.journal.filter fun e => e.about == id.text && e.note.isLifecycle).map Entry.note

theorem Notified.notices_eq (hn : Notified past h) (id : StreamId) :
    h.notices id = (past.filterMap (Mark.told? id)).map fun m =>
      if m.1 then .created else .closed false := by
  have hjournal : h.notices id = (h.journal.filterMap Entry.lifecycle?).filterMap fun n =>
      if n.1 = id.text then some n.2 else none := by
    rw [notices, List.filterMap_filterMap, ← List.filterMap_eq_map, List.filterMap_filter]
    refine List.filterMap_congr fun e _ => ?_
    cases hl : e.note.isLifecycle <;> simp [Entry.lifecycle?, hl]
  rw [hjournal, hn.journal, List.filterMap_filterMap, List.map_filterMap]
  refine List.filterMap_congr fun m hm => ?_
  have htext : ∀ other : StreamId, other.text = id.text ↔ other = id := fun other =>
    ⟨fun heq => by cases other; cases id; simp_all, fun heq => by rw [heq]⟩
  cases m with
  | created other k =>
      by_cases heq : other = id <;> simp [Mark.note?, Mark.told?, htext, heq]
  | closed other k e r =>
      obtain ⟨-, rfl⟩ := hn.ended other k e r hm
      by_cases heq : other = id <;> simp [Mark.note?, Mark.told?, htext, heq]
  | arm | cancel | cancelAll | due | finish => rfl

theorem Notified.alternate (hn : Notified past h) (id : StreamId) :
    ∃ n, h.notices id =
      (List.range n).map fun i => if i % 2 = 0 then .created else .closed false := by
  have halternate := (hn.lifetimes id).alternate
  refine ⟨(past.filterMap (Mark.told? id)).length, ?_⟩
  have hkinds : h.notices id = ((past.filterMap (Mark.told? id)).map Prod.fst).map fun b =>
      if b then .created else .closed false := by
    rw [hn.notices_eq, List.map_map]
    rfl
  rw [hkinds, halternate, List.map_map]
  refine List.map_congr_left fun i _ => ?_
  simp

/-! ### Results -/

/-- **The server is told of beginnings and ends in turns.**

In every run, the calls about one identifier alternate, and the first of them tells of a beginning.
When a call tells of an end, the session has ended and nothing is registered under its identifier.
It is the session of whose beginning the server was told last, and the server is told of its end
only once. -/
theorem lifecycle_notices_alternate (settings : Settings) (server : Server) (sink : Sink)
    (ids : Nat → StreamId) (ss : List Stroke) :
    let start := Script.withService settings server sink ids
    let h := start.strokes ss
    (∀ id, ∃ n, h.notices id =
      (List.range n).map fun i => if i % 2 = 0 then .created else .closed false) ∧
    (∃ marks, Chronicle start marks h) ∧
    ∀ marks, Chronicle start marks h →
      h.journal.filterMap Entry.lifecycle? = marks.filterMap Mark.note? ∧
      (∀ id, Lifetimes (marks.filterMap (Mark.told? id)) (h.lookup id)) ∧
      (marks.filterMap Mark.closed?).Nodup ∧
      ∀ id k ended registered, .closed id k ended registered ∈ marks →
        ended = true ∧ registered = none := by
  intro start h
  have hnotified : ∀ marks, Chronicle start marks h → Notified marks h := fun marks hc =>
    hc.notified (notified_start settings server sink ids)
  obtain ⟨-, marks, hc⟩ := unfolds_strokes start ss (fit_start settings server sink ids)
  refine ⟨(hnotified marks hc).alternate, ⟨marks, hc⟩, fun marks hc => ?_⟩
  have hn := hnotified marks hc
  exact ⟨hn.journal, hn.lifetimes, hn.once, hn.ended⟩

/-- An identifier may be drawn again when its session has ended. -/
example : ((Script.withService {} {} .recorded fun _ => ⟨"a"⟩).strokes
    [.move (.connect 1 false), .move (.create {} 0), .move (.closeId ⟨"a"⟩),
      .move (.connect 2 false), .move (.create {} 1)]).notices ⟨"a"⟩ =
    [.created, .closed false, .created] := by
  rfl

end Hub

end HttpBinding
