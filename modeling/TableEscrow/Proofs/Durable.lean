import TableEscrow.Bus.Ring
import TableEscrow.Proofs.Traffic
import TableEscrow.Rehearsal.Recorder
import TableEscrow.Store.Outbox
/-!
# Durable before visible

What a sink of a row holds, the sinks in front of it hold (`Fanout.DurableFirst`), whoever calls and
whatever is refused. The daemon's row is an outbox and the bus, which do as a row what they do as a pair
(`Sink.offer_pair`), so an envelope that a listener can receive has its row in the outbox
(`Daemon.stored_of_shows`).
-/

namespace TableEscrow

open Relation

namespace Fanout

variable {σ : Type} {f : Fanout σ}

/-- What the sinks of a row have of the calls made on it. -/
structure DurableFirst (f : Fanout σ) : Prop where
  /-- A call returns without an error if and only if every sink has accepted it. -/
  accepted : ∀ {i c r}, f.calls[i]? = some c → c.result? f.sinks.length = some r →
    (r = .ok () ↔ ∀ k < f.sinks.length, (f.log k).filter (·.call = i) = [⟨i, c.dispatch, .ok ()⟩])
  /-- It returns the error of the first sink that refuses it. The sinks in front have accepted the call, and
  those behind have not seen it. -/
  refused : ∀ {i c e}, f.calls[i]? = some c → (c.result? f.sinks.length = some (.error e) ↔
    ∃ k < f.sinks.length, ∀ j, (f.log j).filter (·.call = i) =
      if j < k then [⟨i, c.dispatch, .ok ()⟩] else if j = k then [⟨i, c.dispatch, .error e⟩] else [])
  /-- All sinks were offered the same. -/
  shared : ∀ {j k}, ∀ o ∈ f.log j, ∀ o' ∈ f.log k, o.call = o'.call → o.dispatch = o'.dispatch
  /-- Sinks in front hold all that is held behind them. -/
  contained : ∀ {i j}, i ≤ j → (f.held j : Multiset Dispatch) ≤ f.held i

theorem Consistent.durableFirst (h : f.Consistent) : f.DurableFirst where
  accepted hc := h.returned_ok_iff hc
  refused hc := h.returned_error_iff hc
  shared o ho o' ho' hcall := by
    obtain ⟨c, hc, hd, -⟩ := h.mem_log_iff.1 ho
    obtain ⟨c', hc', hd', -⟩ := h.mem_log_iff.1 ho'
    rw [hcall, hc'] at hc
    cases hc
    rw [hd, hd']
  contained := h.held_le

end Fanout

/-- A recorder keeps what it accepts. -/
theorem Recorder.keeps : Sink.Keeps Recorder.envelopes Eq where
  offer d r := by
    cases d with
    | control e =>
      have hoffer : Sink.offer (.control e) r = r.accept (.control e) := rfl
      rw [hoffer, accept]
      split
      · exact (List.append_nil _).symm
      · rfl
    | live u => exact (List.append_nil _).symm
  other _ _ h := h ▸ rfl

/-! ## The daemon's row -/

/-- A row may have sinks of two kinds. -/
instance {σ τ : Type} [Sink σ] [Sink τ] : Sink (σ ⊕ τ) where
  offer d
    | .inl s => ((Sink.offer d s).1, .inl (Sink.offer d s).2)
    | .inr s => ((Sink.offer d s).1, .inr (Sink.offer d s).2)

/-- Two sinks in a row are a pair of sinks. -/
theorem Sink.offer_pair {σ τ : Type} [Sink σ] [Sink τ] (d : Dispatch) (s : σ) (t : τ) :
    Sink.offer d [Sum.inl s, Sum.inr t] =
      ((Sink.offer d (s, t)).1, [.inl (Sink.offer d (s, t)).2.1, .inr (Sink.offer d (s, t)).2.2]) := by
  have hfirst : Sink.offer d (Sum.inl s : σ ⊕ τ) = ((Sink.offer d s).1, .inl (Sink.offer d s).2) := rfl
  have hsecond : Sink.offer d (Sum.inr t : σ ⊕ τ) = ((Sink.offer d t).1, .inr (Sink.offer d t).2) := rfl
  change Sink.offerInOrder d _ = _
  rw [Sink.offerInOrder, Sink.offerInOrder, hfirst, hsecond]
  rcases hs : Sink.offer d s with ⟨e | _, s'⟩
  · have hpair : Sink.offer d (s, t) = (.error e, s', t) := by simp only [Sink.offer, hs]
    rw [hpair]
  · have hpair : Sink.offer d (s, t) = ((Sink.offer d t).1, s', (Sink.offer d t).2) := by simp only [Sink.offer, hs]
    rw [hpair]
    rcases Sink.offer d t with ⟨_ | _, t'⟩ <;> rfl

namespace Bus

/-- A listener can receive a message now. -/
def Shows (m : Message) (b : Bus) : Prop := ∃ r, (b.receive r).1 = .message m ∨ .message m ∈ (b.drain r).1

theorem mem_kept_of_shows {m : Message} {b : Bus} (h : b.Shows m) : m ∈ b.kept := by
  obtain ⟨r, h | h⟩ := h
  · rw [receive] at h
    split at h
    · cases h
    · split at h
      · next hkept =>
        cases h
        exact List.mem_of_getElem? hkept
      · cases h
  · simp only [drain, List.mem_append, List.mem_map] at h
    rcases h with h | ⟨m', hm', h⟩
    · split at h
      · cases List.mem_singleton.1 h
      · cases h
    · cases h
      exact List.mem_of_mem_drop hm'

theorem mem_kept_send {m m' : Message} {b : Bus} (h : m ∈ (b.send m').kept) : m ∈ b.kept ∨ m = m' := by
  rcases List.mem_append.1 (List.mem_of_mem_drop h) with h | h
  · exact .inl h
  · exact .inr (List.mem_singleton.1 h)

end Bus

namespace Daemon

open Store

variable {τ : Type}

/-- A database whose outbox has these rows: it keeps them, and takes in what it says it takes in. -/
structure KeepsRows (d : Database τ) (rows : τ → List (List Parameter)) : Prop where
  stays : ∀ e state, rows state ⊆ rows (d.answer (.enqueue e) state).2
  taken : ∀ e state, (d.answer (.enqueue e) state).1 = .ok () →
    (Statement.enqueue e).parameters ∈ rows (d.answer (.enqueue e) state).2

/-- What else becomes of the daemon's sinks: whatever keeps the rows of the outbox, and messages on the bus that
carry no envelope. -/
inductive Elsewhere (rows : τ → List (List Parameter)) : Outbox τ ⊕ Bus → Outbox τ ⊕ Bus → Prop
  | outbox {d : Database τ} {state state' : τ} (h : rows state ⊆ rows state') :
    Elsewhere rows (.inl ⟨d, state⟩) (.inl ⟨d, state'⟩)
  | bus {b : Bus} {m : Message} (h : ∀ e, m ≠ .control e) : Elsewhere rows (.inr b) (.inr (b.send m))

/-- The outbox has a row for each envelope it accepted, and what the bus keeps it accepted. -/
inductive Truthful (d : Database τ) (rows : τ → List (List Parameter)) : Nat → Logged (Outbox τ ⊕ Bus) → Prop
  | outbox {state : τ} {log : List Offer}
      (h : ∀ i e, ⟨i, .control e, .ok ()⟩ ∈ log → (Statement.enqueue e).parameters ∈ rows state) :
    Truthful d rows 0 ⟨.inl ⟨d, state⟩, log⟩
  | bus {b : Bus} {log : List Offer} (h : ∀ e, .control e ∈ b.kept → ∃ i, ⟨i, .control e, .ok ()⟩ ∈ log) :
    Truthful d rows 1 ⟨.inr b, log⟩

variable {d : Database τ} {rows : τ → List (List Parameter)} {k : Nat} {s : Logged (Outbox τ ⊕ Bus)}

theorem enqueued_of_accepted {e : ControlEnvelope} {state : τ}
    (h : (Sink.offer (.control e) (⟨d, state⟩ : Outbox τ)).1 = .ok ()) : (d.answer (.enqueue e) state).1 = .ok () := by
  have hanswer : (Sink.offer (.control e) (⟨d, state⟩ : Outbox τ)).1 =
      ((d.answer (.enqueue e) state).1.mapError fun reason => .failed (.enqueue e) (.refused reason)).mapError
        fun e => .transport (StoreError.chain e) := rfl
  rw [hanswer] at h
  cases hd : (d.answer (.enqueue e) state).1 with
  | ok _ => rfl
  | error reason =>
    rw [hd] at h
    cases h

theorem Truthful.offer (hd : KeepsRows d rows) (h : Truthful d rows k s) (i : Nat) (dispatch : Dispatch) :
    Truthful d rows k (s.offer i dispatch) := by
  cases h with
  | @outbox state log h =>
    cases dispatch with
    | control e =>
      refine .outbox fun j e' he => ?_
      rcases List.mem_append.1 he with he | he
      · exact hd.stays e state (h j e' he)
      · obtain ⟨rfl, rfl, hanswer⟩ : j = i ∧ e' = e ∧ _ := by simpa using List.mem_singleton.1 he
        exact hd.taken _ state (enqueued_of_accepted hanswer.symm)
    | live u =>
      refine .outbox fun j e he => ?_
      rcases List.mem_append.1 he with he | he
      · exact h j e he
      · simp at he
  | @bus b log h =>
    cases dispatch with
    | control e =>
      refine .bus fun e' he => ?_
      rcases Bus.mem_kept_send he with he | he
      · exact (h e' he).imp fun j hj => List.mem_append_left _ hj
      · cases he
        exact ⟨i, List.mem_append_right _ (List.mem_singleton_self _)⟩
    | live u =>
      refine .bus fun e he => ?_
      rcases Bus.mem_kept_send he with he | he
      · exact (h e he).imp fun j hj => List.mem_append_left _ hj
      · cases he

theorem Truthful.elsewhere (h : Truthful d rows k s) {s' : Outbox τ ⊕ Bus} (ho : Elsewhere rows s.sink s') :
    Truthful d rows k { s with sink := s' } := by
  cases h with
  | outbox h =>
    cases ho with
    | outbox hrows => exact .outbox fun i e he => hrows (h i e he)
  | bus h =>
    cases ho with
    | bus hm => exact .bus fun e he => h e ((Bus.mem_kept_send he).resolve_right fun heq => hm e heq.symm)

theorem truthful_of_steps (hd : KeepsRows d rows) {state : τ} {capacity : Nat} {f : Fanout (Outbox τ ⊕ Bus)}
    (h : ReflTransGen (Fanout.Step (Elsewhere rows)) (.start [.inl ⟨d, state⟩, .inr (.ofCapacity capacity)]) f) :
    ∀ k s, f.sinks[k]? = some s → Truthful d rows k s := by
  refine Fanout.sinkwise (fun i dispatch hs => hs.offer hd i dispatch) (fun hs ho => hs.elsewhere ho) (fun k s hs => ?_) h
  match k, hs with
  | 0, rfl => exact .outbox fun i e he => absurd he List.not_mem_nil
  | 1, rfl => exact .bus fun e he => absurd he List.not_mem_nil

/-- What a listener can receive has its row in the outbox. -/
theorem stored_of_shows (hd : KeepsRows d rows) {state : τ} {capacity : Nat} {f : Fanout (Outbox τ ⊕ Bus)}
    (h : ReflTransGen (Fanout.Step (Elsewhere rows)) (.start [.inl ⟨d, state⟩, .inr (.ofCapacity capacity)]) f) :
    ∃ state' b, f.row = [.inl ⟨d, state'⟩, .inr b] ∧
      ∀ e, b.Shows (.control e) → (Statement.enqueue e).parameters ∈ rows state' := by
  -- What the bus shows it has accepted, so the outbox in front of it has accepted it, too.
  have htruthful := truthful_of_steps hd h
  obtain ⟨outbox, bus, hsinks⟩ := List.length_eq_two.1 (Fanout.length_of_steps h)
  have hcontained := (Fanout.consistent_of_steps h).accepted_subset (Nat.zero_le 1)
  have houtbox := htruthful 0 outbox (by rw [hsinks]; rfl)
  have hbus := htruthful 1 bus (by rw [hsinks]; rfl)
  cases houtbox with
  | @outbox state' log₀ houtbox =>
    cases hbus with
    | @bus b log₁ hbus =>
      refine ⟨state', b, by rw [Fanout.row, hsinks]; rfl, fun e he => ?_⟩
      obtain ⟨i, hi⟩ := hbus e (Bus.mem_kept_of_shows he)
      have hlog₀ : f.log 0 = log₀ := by rw [Fanout.log, hsinks]; rfl
      have hlog₁ : f.log 1 = log₁ := by rw [Fanout.log, hsinks]; rfl
      rw [hlog₀, hlog₁] at hcontained
      exact houtbox i e (List.mem_filter.1 (hcontained (List.mem_filter.2 ⟨hi, rfl⟩))).1

end Daemon

/-! ## Durable before visible -/

namespace Fanout

/-- Whatever calls are made on a row of sinks, at whatever times, and whatever the sinks answer, sinks in front come
first: a call returns what the first sink that refuses it says, sinks in front of that one have accepted it and
sinks behind it have not seen it. So every sink holds what is held behind it, and in the same order where calls
are made one after another, as a pass makes its own. A call can always go on until it has returned, and one that
nothing comes between does what the row does as one sink. Of the daemon's two sinks, the bus shows no envelope that
has no row in the outbox. -/
theorem durable_before_visible {σ τ : Type} [Sink σ] (other : σ → σ → Prop) (sinks : List σ) {d : Store.Database τ}
    {rows : τ → List (List Store.Parameter)} (hd : Daemon.KeepsRows d rows) :
    (∀ f, ReflTransGen (Step other) (start sinks) f →
      f.DurableFirst ∧ (∀ i < f.calls.length, ∃ f' r, ReflTransGen (Step other) f f' ∧ f'.Returned i r) ∧
      ∀ dispatch, ∃ f' c, ReflTransGen (Step other) f f' ∧ f'.calls = f.calls ++ [c] ∧ c.dispatch = dispatch ∧
        c.result? f'.sinks.length = some (Sink.offer dispatch f.row).1 ∧ f'.row = (Sink.offer dispatch f.row).2) ∧
    (∀ contents : σ → List ControlEnvelope, Sink.Keeps contents other → (∀ s ∈ sinks, contents s = []) →
      ∀ f, ReflTransGen (Step other) (start sinks) f → ∀ i j : Nat, i ≤ j → ∀ front behind, f.row[i]? = some front →
        f.row[j]? = some behind → (contents behind : Multiset ControlEnvelope) ≤ contents front) ∧
    (∀ f, ReflTransGen (fun f f' => Step other f f' ∧ InTurn (fun _ => true) f f') (start sinks) f →
      ∀ i j, i ≤ j → (f.held j).Sublist (f.held i)) ∧
    (∀ stamper t, ReflTransGen (Traffic.Step other) (.start stamper sinks) t →
      ReflTransGen (Step other) (start sinks) t.fanout ∧
      ∀ p ∈ t.passes, p.OneByOne t.fanout ∧ ∀ i j, i ≤ j →
        (t.fanout.heldOf (p.calls.contains ·) j).Sublist (t.fanout.heldOf (p.calls.contains ·) i)) ∧
    ∀ state capacity f,
      ReflTransGen (Step (Daemon.Elsewhere rows)) (start [.inl ⟨d, state⟩, .inr (.ofCapacity capacity)]) f →
      ∃ state' b, f.row = [.inl ⟨d, state'⟩, .inr b] ∧
        ∀ e, b.Shows (.control e) → (Store.Statement.enqueue e).parameters ∈ rows state' := by
  refine ⟨fun f hf => ?_, fun contents hkeeps hempty f hf i j hij front behind hi hj => ?_, fun f hf i j hij => ?_,
    fun stamper t ht => ?_, fun state capacity f hf => ?_⟩
  · have h := consistent_of_steps hf
    refine ⟨h.durableFirst, fun i hi => h.exists_returned hi, fun dispatch => ?_⟩
    obtain ⟨f', c, hsteps, halone⟩ := f.exists_alone dispatch
    exact ⟨f', c, hsteps.head (.begin f dispatch), halone⟩
  · exact contents_le hkeeps hempty hf hij hi hj
  · obtain ⟨h, hinOrder⟩ := inOrder_of_steps hf
    rw [← heldOf_all, ← heldOf_all]
    exact hinOrder.heldOf_sublist h hij
  · exact ⟨Traffic.fanout_of_steps ht, fun p hp =>
      ⟨Traffic.oneByOne_of_steps ht p hp, fun i j hij => Traffic.heldOf_sublist ht hp hij⟩⟩
  · exact Daemon.stored_of_shows hd hf

/-- A timeout is called first and a kick overtakes it; the second sink refuses timeouts. -/
theorem durable_before_visible_overtaken :
    let d : Store.Database (List (List Store.Parameter)) := ⟨fun s rows =>
      match s with
      | .enqueue e => (.ok (), rows ++ [(Store.Statement.enqueue e).parameters])
      | _ => (.error "no such table", rows)⟩
    let timeout : ControlEnvelope := .wrap (.ofNat 0) ⟨0, 0⟩ (.timeout "0xa")
    let kick : ControlEnvelope := .wrap (.ofNat 1) ⟨0, 0⟩ (.kick "0xa" 1)
    Daemon.KeepsRows d id ∧
    (∃ f first second, ReflTransGen (Step Eq) (start [Recorder.empty, Recorder.empty.refuse .timeout]) f ∧
      f.Returned 0 (.error (.rejected .timeout "0xa" "queue full")) ∧ f.Returned 1 (.ok ()) ∧
      f.row = [first, second] ∧ first.envelopes = [kick, timeout] ∧ second.envelopes = [kick] ∧ f.DurableFirst ∧
      (second.envelopes : Multiset ControlEnvelope) ≤ first.envelopes) ∧
    ∃ f state' b, ReflTransGen (Step (Daemon.Elsewhere id)) (start [.inl ⟨d, []⟩, .inr (.ofCapacity 2)]) f ∧
      f.row = [.inl ⟨d, state'⟩, .inr b] ∧ b.Shows (.control kick) ∧
      (Store.Statement.enqueue kick).parameters ∈ state' := by
  intro d timeout kick
  have hd : Daemon.KeepsRows d id :=
    ⟨fun e rows row hrow => List.mem_append_left _ hrow, fun e rows _ => List.mem_append_right _ (List.mem_singleton_self _)⟩
  obtain ⟨hall, hcontents, -, -, hdaemon⟩ :=
    durable_before_visible Eq [Recorder.empty, Recorder.empty.refuse .timeout] hd
  refine ⟨hd, ?_, ?_⟩
  · have h₀ : ReflTransGen (Step Eq) (start [Recorder.empty, Recorder.empty.refuse .timeout]) _ := .refl
    have h₁ := h₀.tail (.begin _ (.control timeout))
    have h₂ := h₁.tail (.begin _ (.control kick))
    have h₃ := h₂.tail (.offer (i := 1) rfl rfl rfl)
    have h₄ := h₃.tail (.offer (i := 0) rfl rfl rfl)
    have h₅ := h₄.tail (.goOn (i := 0) rfl rfl)
    have h₆ := h₅.tail (.offer (i := 0) rfl rfl rfl)
    have h₇ := h₆.tail (.goOn (i := 1) rfl rfl)
    have h₈ := h₇.tail (.offer (i := 1) rfl rfl rfl)
    have h₉ := h₈.tail (.goOn (i := 1) rfl rfl)
    have hempty : ∀ s ∈ [Recorder.empty, Recorder.empty.refuse .timeout], s.envelopes = [] := by
      simp [Recorder.empty, Recorder.refuse]
    exact ⟨_, _, _, h₉, ⟨_, rfl, rfl⟩, ⟨_, rfl, rfl⟩, rfl, rfl, rfl, (hall _ h₉).1,
      hcontents _ Recorder.keeps hempty _ h₉ 0 1 (Nat.zero_le 1) _ _ rfl rfl⟩
  · obtain ⟨f, -, hsteps, -, -, -, hrow⟩ := @exists_alone _ _ (Daemon.Elsewhere id)
      (start [.inl ⟨d, []⟩, .inr (.ofCapacity 2)]) (.control kick)
    have hrun := hsteps.head (.begin _ (.control kick))
    obtain ⟨state', b, hrow', hstored⟩ := hdaemon [] 2 f hrun
    have hb : b = (Bus.ofCapacity 2).send (.control kick) :=
      Sum.inr.inj (List.cons.inj (List.cons.inj (hrow'.symm.trans hrow)).2).1
    have hslots : (max 2 1).nextPowerOfTwo = 2 := by decide +kernel
    rw [Bus.ofCapacity, hslots] at hb
    have hshows : b.Shows (.control kick) := ⟨⟨0⟩, .inl (hb ▸ rfl)⟩
    exact ⟨f, state', b, hrun, hrow', hshows, hstored kick hshows⟩

end Fanout

end TableEscrow
