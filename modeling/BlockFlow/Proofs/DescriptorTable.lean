import BlockFlow.Proofs.Bookkeeping
import BlockFlow.Proofs.Seen
import BlockFlow.Proofs.Vacancy

/-!
# The table of descriptors

An engine of built-in blocks watches just what its servers have open, whatever is asked of it and
whatever its clients do. The engine watches for nobody else as long as nobody asks it to, and no
descriptor is opened or closed behind the back of its owner.

1. `Request.IsOfService`: what may be asked for.
2. `Machine.Affords`: the host has room all the time. Without room a host would have no number to
   give to a descriptor.
3. `Machine.Hosted`: the machines that an engine comes to outside of all hooks.
4. `Machine.Bookkept`: what is watched, and what is open; `bookkeeping`: it always holds.
-/

namespace BlockFlow

open Run

/-! ## What may be asked for -/

/-- A request that watches, opens and closes no single descriptor, besides those of clients. Blocks
have theirs watched and closed from inside of their hooks. -/
def Request.IsOfService {F M : Type} : Request F M → Prop
  | .watch _ | .unwatch _ | .listen _ | .accept _ | .close _ => False
  | .act a => a.IsOfClients
  | _ => True

namespace Machine

variable {α : Type} {strange : Fd → Prop} {away : BlockId → List Fd}
  {s t : Machine Builtin.kit}

/-- A run leads from one machine to another. The host has room at its beginning and whenever a
script has control. -/
structure Affords (s : Machine Builtin.kit) (r : Run Builtin.kit α) (t : Machine Builtin.kit) :
    Prop where
  atFirst : s.host.HasRoom
  meanwhile : ∀ m ∈ r.moments s, m.host.HasRoom
  ends : ∃ x, s.run? r = some (x, t)

theorem Affords.result {r : Run Builtin.kit α} (h : s.Affords r t)
    {Q : α → Machine Builtin.kit → Prop} (hr : r.Abides .withRoom Q s) : ∃ a, Q a t := by
  obtain ⟨x, hrun⟩ := h.ends
  obtain ⟨a, -, ha⟩ := hr.of_moments h.meanwhile hrun
  exact ⟨a, ha⟩

/-- Moving the clock may break off, and leaves the books as they are then, too. -/
theorem Balanced.act (hb : s.Balanced strange away) {a : Host.Action} (ha : a.IsOfClients) {n : Nat}
    (h : s.Affords (perform (callHook n) n (.act a)) t) :
    t.Balanced strange away ∧ s.KeepsBusy t := by
  obtain ⟨x, hrun⟩ := h.ends
  have hacts : (perform (callHook n) n (.act a)).Abides
      (.ending fun u => u = { s with host := (s.host.act a).2 })
      (fun _ u => u = { s with host := (s.host.act a).2 }) s := by
    show Abides _ _ (onHost (·.act a) >>= _) s
    simp only [abides_bind, abides_onHost]
    split
    · rfl
    · rfl
  obtain rfl := hacts.after hrun
  exact ⟨⟨hb.ledger.act h.atFirst ha, hb.fits⟩, keepsBusy_of_blocks rfl⟩

/-- All that is done for a request keeps the books. -/
theorem Balanced.served (hb : s.Balanced strange away) (hidle : s.Idle)
    {r : Request BuiltinKind Empty} (hr : r.IsOfService) {n : Nat}
    (h : s.Affords (perform (callHook n) n r) t) : t.Balanced strange away ∧ s.KeepsBusy t := by
  have hcall : Call.Balances strange (callHook n) := balances_callHook n
  by_cases hdirect : r.IsDirect
  · cases r with
    | act a => exact hb.act hr h
    | clear =>
      obtain ⟨-, ht⟩ := h.result (balanced_clear hcall n hb hidle)
      exact ht
    | receive fd =>
      obtain ⟨-, ht⟩ := h.result (balances_onHost (·.sameOpen_receive fd) away s hb)
      exact ht
    | transmit fd bytes =>
      obtain ⟨-, ht⟩ := h.result (balances_onHost (·.sameOpen_transmit fd bytes) away s hb)
      exact ht
    | removeFile path =>
      obtain ⟨-, ht⟩ := h.result (balances_onHost (·.sameOpen_removeFile path) away s hb)
      exact ht
    | watch | unwatch | listen | accept | close => exact hr.elim
    | _ => exact hdirect.elim
  · have hkeeps : (perform (callHook n) n r).Balances strange :=
      (operates_perform n r fun h => hdirect h).balances hcall
    obtain ⟨-, ht⟩ := h.result (hkeeps away s hb)
    exact ht

theorem balanced_fresh {h : Host} (hclients : h.clients = .empty) (settings : Settings) :
    (fresh settings h : Machine Builtin.kit).Balanced h.HasOpen fun _ => [] where
  ledger := by
    refine ⟨fun w => ⟨fun hw => ?_, ?_⟩, ?_, ?_, ?_, fun hopen => .inr (.inr hopen)⟩
    · cases hw
    · rintro ⟨_, _, hfd, -⟩
      cases hfd
    · intro _ _ hfd
      cases hfd
    · intro name fd hget
      have hnone : (Keyed.empty : Keyed String Fd).get? name = some fd := hclients ▸ hget
      cases hnone
    · intro name _ fd hget
      have hnone : (Keyed.empty : Keyed String Fd).get? name = some fd := hclients ▸ hget
      cases hnone
  fits hget := by cases hget

/-! ## Machines outside of all hooks -/

/-- The machines that an engine comes to on a host outside of all hooks: after requests, and in the
middle of a poll, after some of the owners of ready descriptors were called. -/
inductive Hosted (h₀ : Host) : Machine Builtin.kit → Prop
  | fresh (settings : Settings) : Hosted h₀ (.fresh settings h₀)
  | served {s t : Machine Builtin.kit} {n : Nat} {r : Request BuiltinKind Empty} (h : Hosted h₀ s)
    (hr : r.IsOfService) (hrun : s.Affords (perform (callHook n) n r) t) : Hosted h₀ t
  | delivered {s t : Machine Builtin.kit} {n : Nat} {ws : List Watch} (h : Hosted h₀ s)
    (hrun : s.Affords (deliverEvents (callHook n) ws) t) : Hosted h₀ t

theorem Hosted.balanced {h₀ : Host} (hclients : h₀.clients = .empty) (h : s.Hosted h₀) :
    (s.Balanced h₀.HasOpen fun _ => []) ∧ s.Idle := by
  induction h with
  | fresh settings =>
    refine ⟨balanced_fresh hclients settings, fun id e hget => ?_⟩
    cases hget
  | served _ hr hrun ih =>
    obtain ⟨hb, hidle⟩ := ih
    obtain ⟨hb', hkeeps⟩ := hb.served hidle hr hrun
    exact ⟨hb', hidle.keepsBusy hkeeps⟩
  | @delivered s t n ws _ hrun ih =>
    obtain ⟨hb, hidle⟩ := ih
    have hoperates : Operates (callHook n) (fun _ => False) (deliverEvents (callHook n) ws) :=
      operates_deliverEvents (K := Builtin.kit) ws
    obtain ⟨-, hb', hkeeps⟩ :=
      hrun.result (hoperates.balances (balances_callHook n) (fun _ => []) s hb)
    exact ⟨hb', hidle.keepsBusy hkeeps⟩

/-! ## What is watched -/

/-- A live server listens, and a descriptor is its listener or that of one of its clients. -/
def Uses (s : Machine Builtin.kit) (id : BlockId) (fd : Fd) : Prop :=
  ∃ sv st listener, s.HasServer id sv st ∧ sv.listener = some listener ∧
    fd ∈ listener :: sv.clients.map (·.fd)

/-- No block is inside of a hook, the engine watches what its servers use and nothing else, and
nothing is left open. `strange` says which descriptors were open at the beginning. -/
structure Bookkept (s : Machine Builtin.kit) (strange : Fd → Prop) : Prop where
  idle : s.Idle
  mem_iff (w : Watch) : w ∈ s.manager.watches.toList ↔ ∃ id fd, s.Uses id fd ∧ w = .reading id fd
  nodup : (s.manager.watches.toList.map (·.source.fd)).Nodup
  distinct {id : BlockId} {sv : Server} {st : State} (h : s.HasServer id sv st) :
    sv.descriptors.Nodup
  unopened {id : BlockId} {sv : Server} {st : State} (h : s.HasServer id sv st)
    (hnone : sv.listener = none) : sv.clients = []
  stopped {id : BlockId} {sv : Server} (h : s.HasServer id sv .stopped) :
    sv.listener = none ∧ sv.clients = []
  unwatched {id : BlockId}
    (h : ∀ e, s.manager.blocks.get? id = some e → e.state = .stopped) :
    ∀ w ∈ s.manager.watches.toList, w.owner ≠ id
  isOpen {id : BlockId} {fd : Fd} (h : s.Uses id fd) : s.host.HasOpen fd
  accounted {fd : Fd} (h : s.host.HasOpen fd) :
    (∃ id, s.Uses id fd) ∨ (∃ name, s.host.clients.get? name = some fd) ∨ strange fd

theorem Balanced.fits_server (hb : s.Balanced strange away) {id : BlockId} {sv : Server}
    {st : State} (h : s.HasServer id sv st) : sv.Fits st := by
  obtain ⟨e, hget, hc, rfl⟩ := h
  exact hb.fits hget hc

/-- The numbers that blocks have are those that servers use. -/
theorem Balanced.mem_held_iff (hb : s.Balanced strange away) (hidle : s.Idle) {id : BlockId}
    {fd : Fd} : fd ∈ s.held away id ↔ s.Uses id fd := by
  constructor
  · intro hfd
    cases hget : s.manager.blocks.get? id with
    | none =>
      rw [held_of_not_live hget] at hfd
      cases hfd
    | some e =>
      obtain ⟨c, hc⟩ := Option.ne_none_iff_exists'.1 (hidle id e hget)
      rw [held_of_idle hget hc] at hfd
      cases c with
      | hello _ => cases hfd
      | server sv =>
        have hfits : sv.Fits e.state := hb.fits hget hc
        cases hlistener : sv.listener with
        | none =>
          have hnil : sv.descriptors = [] := by
            unfold Server.descriptors
            rw [hlistener, hfits.clients hlistener]
            rfl
          have hfd' : fd ∈ sv.descriptors := hfd
          rw [hnil] at hfd'
          cases hfd'
        | some listener =>
          refine ⟨sv, e.state, listener, ⟨e, hget, hc, rfl⟩, hlistener, ?_⟩
          have hfd' : fd ∈ sv.descriptors := hfd
          unfold Server.descriptors at hfd'
          rwa [hlistener] at hfd'
  · rintro ⟨sv, st, listener, ⟨e, hget, hc, -⟩, hlistener, hfd⟩
    rw [held_of_idle hget hc]
    show fd ∈ sv.descriptors
    unfold Server.descriptors
    rwa [hlistener]

theorem Balanced.bookkept (hb : s.Balanced strange away) (hidle : s.Idle) : s.Bookkept strange := by
  have hl : Ledger strange s.Uses s.manager.watches s.host :=
    hb.ledger.congr fun _ _ => (hb.mem_held_iff hidle).symm
  have hnone {id : BlockId} {sv : Server} (h : s.HasServer id sv .stopped) :
      sv.listener = none ∧ sv.clients = [] := by
    obtain ⟨hlistener, hclients⟩ := List.append_eq_nil_iff.1 ((hb.fits_server h).stopped rfl)
    exact ⟨Option.toList_eq_nil_iff.1 hlistener, List.map_eq_nil_iff.1 hclients⟩
  refine ⟨hidle, hl.mem_iff, ?_, fun h => (hb.fits_server h).nodup,
    fun h => (hb.fits_server h).clients, hnone, fun {id} h w hw howner => ?_, hl.isOpen, hl.owned⟩
  · -- All watches are of numbers, so different sources have different numbers.
    refine List.pairwise_map.2 (s.manager.watches.distinct.imp_of_mem fun ha hb hne heq => hne ?_)
    obtain ⟨_, _, -, rfl⟩ := (hl.mem_iff _).1 ha
    obtain ⟨_, _, -, rfl⟩ := (hl.mem_iff _).1 hb
    exact congrArg (Source.mk · none) heq
  · obtain ⟨id', fd, huses, rfl⟩ := (hl.mem_iff w).1 hw
    obtain ⟨sv, st, listener, ⟨e, hget, hc, -⟩, hlistener, -⟩ := huses
    obtain rfl : id' = id := howner
    have hgone := (hnone ⟨e, hget, hc, h e hget⟩).1
    rw [hlistener] at hgone
    cases hgone

end Machine

/-- **Bookkeeping.** Outside of all hooks, an engine of built-in blocks watches the listener of each
server that listens and the descriptors of its clients, each once, for reading and for that server,
and nothing else. A server that is stopped or deleted has nothing left: no watch, no listener and no
client; each descriptor that is open is used by a server that is live, is the end of a client, or
was open before. -/
theorem bookkeeping {h₀ : Host} (hclients : h₀.clients = .empty) {s : Machine Builtin.kit}
    (h : s.Hosted h₀) : s.Bookkept h₀.HasOpen :=
  let ⟨hb, hidle⟩ := h.balanced hclients
  hb.bookkept hidle

/-! ## A server that is stopped by a client of another one -/

def Machine.asked (s : Machine Builtin.kit) (r : Request BuiltinKind Empty) :
    Machine Builtin.kit := s.after (perform (callHook 3) 3 r)

theorem Machine.Hosted.asked {h₀ : Host} {s : Machine Builtin.kit} {r : Request BuiltinKind Empty}
    (hr : r.IsOfService)
    (hrun : s.host.HasRoom ∧ (∀ m ∈ (perform (callHook 3) 3 r).moments s, m.host.HasRoom) ∧
      (s.run? (perform (callHook 3) 3 r)).isSome)
    (h : s.Hosted h₀) : (s.asked r).Hosted h₀ :=
  .served h hr ⟨hrun.1, hrun.2.1, Machine.run?_after hrun.2.2⟩

/-- A machine with two servers that have a client each. -/
def paired : Machine Builtin.kit :=
  (((((Machine.fresh {} .manual).asked (.register "ncli" .server)).asked
    (.loadText "0 -1 ncli\n0 -2 ncli\n2 -1 path=a\n2 -2 path=b\n4 -1\n4 -2")).asked
    (.act (.connect "x" "a"))).asked (.act (.connect "y" "b"))).asked .poll

/-- The machine after both clients have sent a command and a poll has found both of them ready. The
command of the first one stops the server of the second one. -/
def outlasting : Machine Builtin.kit :=
  ((paired.asked (.act (.send "x" (bytesOf "5 -2\n")))).asked
    (.act (.send "y" (bytesOf "5 -1\n")))).asked .poll

theorem hosted_outlasting : outlasting.Hosted .manual := by
  refine .asked trivial ?_ <| .asked trivial ?_ <| .asked trivial ?_ <| .asked trivial ?_ <|
    .asked trivial ?_ <| .asked trivial ?_ <| .asked trivial ?_ <| .asked trivial ?_ <| .fresh {}
  all_goals decide +kernel

/-- The first server and its client are watched as before, and nothing else is. -/
theorem bookkeeping_outlasting :
    Host.manual.clients = .empty ∧ outlasting.Hosted .manual ∧
    outlasting.Bookkept Host.manual.HasOpen ∧
    paired.manager.watches.toList =
      [.reading ⟨-1⟩ 3, .reading ⟨-2⟩ 4, .reading ⟨-1⟩ 7, .reading ⟨-2⟩ 8] ∧
    outlasting.manager.watches.toList = [.reading ⟨-1⟩ 3, .reading ⟨-1⟩ 7] :=
  ⟨rfl, hosted_outlasting, bookkeeping rfl hosted_outlasting, by decide +kernel, by decide +kernel⟩

end BlockFlow
