import HttpBinding.Proofs.Session.Custody

/-!
# HttpBinding.Proofs.Session.Serving

What a session can do to the exchanges it gets hold of.

Operations on a session act for the server half of an exchange only. `Exchange.Served x y` says so of
one exchange: the requester's side is as it was, an exchange that was used up stays so, and only one
that could be answered got an answer. `Report.Serves` says it of everything that an operation holds
or lets go of afterwards.
-/

namespace HttpBinding

namespace Exchange

/-- `y` is what `x` is after its server half has acted. -/
structure Served (x y : Exchange) : Prop where
  key : y.key = x.key
  rid : y.rid = x.rid
  secure : y.secure = x.secure
  listening : y.listening = x.listening
  departed : y.departed = x.departed
  consistent : x.Consistent → y.Consistent
  /-- A sender that is gone does not come back. -/
  sender : y.hasSender = true → x.hasSender = true ∧ y.phase = x.phase
  /-- Only an exchange that can be answered is given an answer. -/
  mailbox : y.mailbox = x.mailbox ∨ x.isAnswerable = true ∧ ∃ r, y.mailbox = .holding r

variable {x y z : Exchange}

theorem Served.refl (x : Exchange) : x.Served x :=
  ⟨rfl, rfl, rfl, rfl, rfl, id, fun hs => ⟨hs, rfl⟩, Or.inl rfl⟩

/-- What cannot be answered any more stays so. -/
theorem Served.answerable (h : x.Served y) (ha : y.isAnswerable = true) :
    x.isAnswerable = true := by
  simp only [isAnswerable, Bool.and_eq_true, beq_iff_eq] at ha ⊢
  obtain ⟨hsender, hphase⟩ := h.sender ha.1.2
  exact ⟨⟨hphase ▸ ha.1.1, hsender⟩, h.listening ▸ ha.2⟩

theorem Served.trans (hxy : x.Served y) (hyz : y.Served z) : x.Served z := by
  refine ⟨hyz.key.trans hxy.key, hyz.rid.trans hxy.rid, hyz.secure.trans hxy.secure,
    hyz.listening.trans hxy.listening, hyz.departed.trans hxy.departed,
    fun hc => hyz.consistent (hxy.consistent hc), fun hs => ?_, ?_⟩
  · obtain ⟨hy, hphase⟩ := hyz.sender hs
    exact ⟨(hxy.sender hy).1, hphase.trans (hxy.sender hy).2⟩
  · rcases hyz.mailbox with hz | ⟨ha, r, hr⟩
    · rw [hz]
      exact hxy.mailbox
    · exact Or.inr ⟨hxy.answerable ha, r, hr⟩

/-- An act that uses up the sender and leaves the mailbox alone. -/
theorem Served.of_no_sender (hkey : y.key = x.key) (hrid : y.rid = x.rid)
    (hsecure : y.secure = x.secure) (hlistening : y.listening = x.listening)
    (hdeparted : y.departed = x.departed) (hsender : y.hasSender = false)
    (hmailbox : y.mailbox = x.mailbox ∨ x.isAnswerable = true ∧ ∃ r, y.mailbox = .holding r) :
    x.Served y :=
  ⟨hkey, hrid, hsecure, hlistening, hdeparted, fun _ => .of_no_sender hsender,
    fun hs => by simp [hsender] at hs, hmailbox⟩

theorem served_bind (x : Exchange) (id : StreamId) : x.Served (x.bind id) :=
  ⟨rfl, rfl, rfl, rfl, rfl, fun hc => hc.bind id, fun hs => ⟨hs, rfl⟩, Or.inl rfl⟩

theorem served_compress (x : Exchange) (compression : Compression) :
    x.Served (x.compress compression) :=
  ⟨rfl, rfl, rfl, rfl, rfl, fun hc => hc.act (.compress compression), fun hs => ⟨hs, rfl⟩,
    Or.inl rfl⟩

theorem served_drop (x : Exchange) : x.Served x.drop :=
  .of_no_sender rfl rfl rfl rfl rfl rfl (Or.inl rfl)

theorem served_spent (x : Exchange) : x.Served x.spent :=
  .of_no_sender rfl rfl rfl rfl rfl rfl (Or.inl rfl)

theorem served_answered (h : x.isAnswerable = true) (body : Body) :
    x.Served (x.answered body) :=
  .of_no_sender rfl rfl rfl rfl rfl rfl (Or.inr ⟨h, _, rfl⟩)

theorem served_deliver (x : Exchange) (body : Body) : x.Served (x.deliver body).2 := by
  unfold deliver
  split
  · rename_i h
    exact served_answered h body
  · exact served_spent x

theorem served_close (x : Exchange) : x.Served x.close := by
  unfold close
  split
  · exact .of_no_sender rfl rfl rfl rfl rfl rfl (Or.inl rfl)
  · exact .refl x

theorem served_closeWith (x : Exchange) (body : Body) : x.Served (x.closeWith body) := by
  unfold closeWith
  split
  · rename_i h
    exact .of_no_sender rfl rfl rfl rfl rfl rfl (Or.inr ⟨h, _, rfl⟩)
  · exact served_spent x

/-- What the server half of a loose exchange does serves it. -/
theorem served_act (x : Exchange) {a : Act} (ha : a ≠ .take ∧ a ≠ .depart ∧ a ≠ .leave) :
    x.Served (x.act a) := by
  cases a with
  | deliver body => exact x.served_deliver body
  | close => exact x.served_close
  | closeWith body => exact x.served_closeWith body
  | compress compression => exact x.served_compress compression
  | drop => exact x.served_drop
  | take => exact absurd rfl ha.1
  | depart => exact absurd rfl ha.2.1
  | leave => exact absurd rfl ha.2.2

end Exchange

/-! ### Operations -/

/-- Everything that an operation holds or has let go was among the exchanges `before`, and only
its server half has acted since. -/
def Report.Serves {ο α : Type} (before : List Exchange) (r : Report ο α) : Prop :=
  ∀ y ∈ r.session.held ++ r.released, ∃ x ∈ before, x.Served y

namespace Session

variable {ο : Type}

/-- What is only moved is served. -/
theorem serves_of_subset {before after : List Exchange} (h : ∀ y ∈ after, y ∈ before) :
    ∀ y ∈ after, ∃ x ∈ before, x.Served y :=
  fun y hy => ⟨y, h y hy, .refl y⟩

/-- An act of the server half on some of the exchanges serves them. -/
theorem serves_map {before part : List Exchange} {f : Exchange → Exchange}
    (hf : ∀ x ∈ part, x.Served (f x)) (hsub : ∀ x ∈ part, x ∈ before) :
    ∀ y ∈ part.map f, ∃ x ∈ before, x.Served y := by
  intro y hy
  obtain ⟨x, hx, rfl⟩ := List.mem_map.mp hy
  exact ⟨x, hsub x hx, hf x hx⟩

/-- Two parts of what is left are accounted for separately. -/
theorem serves_append {before part more : List Exchange}
    (hpart : ∀ y ∈ part, ∃ x ∈ before, x.Served y)
    (hmore : ∀ y ∈ more, ∃ x ∈ before, x.Served y) :
    ∀ y ∈ part ++ more, ∃ x ∈ before, x.Served y :=
  fun y hy => (List.mem_append.mp hy).elim (hpart y) (hmore y)

theorem serves_abandoned (held : List Exchange) :
    ∀ y ∈ abandoned held, ∃ x ∈ held, x.Served y :=
  serves_map (fun x _ => x.served_close) fun _ hx => (List.mem_filter.mp hx).1

theorem serves_waiting (held : List Exchange) : ∀ y ∈ waiting held, ∃ x ∈ held, x.Served y :=
  serves_of_subset fun _ hy => (List.mem_filter.mp hy).1

theorem serves_release (s : Session ο) : s.release.Serves s.held := by
  rcases release_cases s with ⟨-, heq⟩ | ⟨-, heq⟩ <;> rw [heq]
  · exact serves_of_subset fun y hy => by simpa using hy
  · exact serves_append (serves_waiting s.held) (serves_abandoned s.held)

theorem serves_deliver (s : Session ο) (stanza : Stanza) :
    (s.deliver stanza).Serves s.held := by
  rcases deliver_cases s stanza with
    ⟨-, heq⟩ | ⟨-, pre, x, post, hheld, -, hx, heq⟩ | ⟨-, -, heq⟩ <;> rw [heq]
  · exact serves_of_subset fun y hy => by simpa using hy
  · refine serves_append (serves_of_subset fun y hy => ?_) (serves_append
      (serves_map (fun y _ => y.served_spent) fun y hy => by simp [hheld, hy]) fun y hy => ?_)
    · exact hheld ▸ List.mem_append_right pre (List.mem_cons_of_mem x hy)
    · obtain rfl := List.mem_singleton.mp hy
      exact ⟨x, by simp [hheld], Exchange.served_answered hx _⟩
  · exact serves_append (by simp) (serves_map (fun y _ => y.served_spent) fun _ hy => hy)

theorem serves_close (s : Session ο) (shutdown : Bool) : (s.close shutdown).Serves s.held := by
  rcases close_cases s shutdown with ⟨-, heq⟩ | ⟨-, heq⟩ <;> rw [heq]
  · exact serves_of_subset fun y hy => by simpa using hy
  · exact serves_append (by simp) (serves_map (fun y _ => y.served_closeWith _) fun _ hy => hy)

theorem serves_enrol (s : Session ο) (x : Exchange) : (s.enrol x).Serves (s.held ++ [x]) := by
  have hgone : ∀ y ∈ abandoned s.held, ∃ z ∈ s.held ++ [x], z.Served y := by
    intro y hy
    obtain ⟨z, hz, hserved⟩ := serves_abandoned s.held y hy
    exact ⟨z, List.mem_append_left _ hz, hserved⟩
  have hstay : ∀ y ∈ waiting s.held, y ∈ s.held ++ [x] := fun y hy =>
    List.mem_append_left _ (List.mem_filter.mp hy).1
  have hnew : ∀ f : Exchange → Exchange, x.Served (f (x.bind s.id)) →
      ∀ y ∈ [f (x.bind s.id)], ∃ z ∈ s.held ++ [x], z.Served y := by
    intro f hf y hy
    obtain rfl := List.mem_singleton.mp hy
    exact ⟨x, by simp, hf⟩
  have hbound := x.served_bind s.id
  rcases enrol_cases s x with ⟨-, heq⟩ | ⟨-, ha, heq⟩ | ⟨-, -, heq⟩ <;> rw [heq]
  · refine serves_append (serves_append ?_ (hnew (fun y => y) hbound)) (serves_append hgone ?_)
    · exact serves_of_subset fun y hy => hstay y (List.mem_of_mem_drop hy)
    · exact serves_map (fun y _ => y.served_closeWith _) fun y hy =>
        hstay y (List.mem_of_mem_take hy)
  · have hfit : (x.bind s.id).isAnswerable = true := ha
    exact serves_append (serves_of_subset hstay) (serves_append hgone
      (hnew (·.answered (.delivery s.buffer))
        (hbound.trans (Exchange.served_answered hfit _))))
  · exact serves_append (serves_of_subset hstay) (serves_append hgone
      (hnew (·.spent.drop) ((hbound.trans (Exchange.served_spent _)).trans
        (Exchange.served_drop _))))

theorem serves_accept (s : Session ο) (x : Exchange) (poll : Bool) (now : Nat) :
    (s.accept x poll now).Serves (s.held ++ [x]) := by
  rcases accept_cases s x poll now with ⟨fault, p, heq⟩ | ⟨-, p, heq⟩ <;> rw [heq]
  · refine serves_append (serves_of_subset fun y hy => List.mem_append_left _ hy) fun y hy => ?_
    obtain rfl := List.mem_singleton.mp hy
    exact ⟨x, by simp, x.served_drop⟩
  · exact serves_enrol { s with lastPoll := p } x

end Session

end HttpBinding
