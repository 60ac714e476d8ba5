import PublishH264.Nal

/-!
# Socket — `recv` and `running_` as the worker thread sees them

The worker of `H264TcpSource` reads its TCP socket with `recv` and polls the atomic flag
`running_` with `running_.load()`. It controls neither: `recv(fd, buf, len, 0)` returns from one
up to `len` of the next stream bytes, `0` at the end of the stream, or a negative value on an
error, and the owner's `stop()` stores `false` into `running_` at any moment.

`Env` fixes one such behaviour: the most the `k`-th `recv` returns (`0` standing for an error),
and the first `running_.load()` that `stop()` precedes. Every run of the worker is its run under
one `Env`, so a statement over all `Env`s is a statement over all runs. `Conn` is the worker's
side: the stream bytes it has not received yet, the number of `recv` calls and loads made, and
whether it has stored `false` itself.

`Conn.fill` is the read loop of the AVCC branch, `while (filled < want && running_.load())`;
`Conn.fill_spec` says what it can do in any environment and `Conn.fill_reliable` that without
`stop()` and `recv` errors it reads exactly `want` bytes when the stream has them.

A run sees its environment only at the loads and `recv`s it makes. `Env.AgreeWithin` says that two
environments answer alike while the counts of those stay in a set, and `Conn.fill_agree` that the
read loop then runs alike in both. `Env.agreeWithin_stop` and `Env.agreeWithin_recvError` are the
two cases the AVCC reader's results use: a `stop()` before the `j`-th load, an error from the
`k`-th `recv`.
-/

namespace PublishH264

/-! ## 1. The environment and the worker's connection -/

/-- One behaviour of everything the worker does not control. -/
structure Env where
  /-- The most the `k`-th `recv` call returns; `0` stands for a result `< 0`. -/
  recvCount : Nat → Nat
  /-- `stop()` stored `false` before this `running_.load()` (counted from `0`), if ever. -/
  stopAt : Option Nat

/-- `stop()` came before the `j`-th `running_.load()`. -/
def Env.stopped (env : Env) (j : Nat) : Bool :=
  match env.stopAt with
  | none => false
  | some s => decide (s ≤ j)

/-- No `stop()`, and every `recv` returns at least one byte while the stream has one. -/
def Env.Reliable (env : Env) : Prop := env.stopAt = none ∧ ∀ k, 0 < env.recvCount k

/-- The socket `fd` and the flag `running_`, from the worker's side. -/
structure Conn where
  pending : List UInt8
  recvs : Nat
  loads : Nat
  running : Bool
deriving Repr, DecidableEq

/-- The connection `loop()` works on when the peer sends `stream`; `start()` has set `running_`. -/
def Conn.init (stream : List UInt8) : Conn := ⟨stream, 0, 0, true⟩

/-- `running_.load()`. -/
def Conn.load (env : Env) (c : Conn) : Bool × Conn :=
  (c.running && !env.stopped c.loads, { c with loads := c.loads + 1 })

/-- `running_.store(false)`. -/
def Conn.store (c : Conn) : Conn := { c with running := false }

/-- `recv(fd, buf, len, 0)`: `some` of the bytes received, `none` for a result `≤ 0`. -/
def Conn.recv (env : Env) (c : Conn) (len : Nat) : Option (List UInt8) × Conn :=
  let n := min (env.recvCount c.recvs) (min len c.pending.length)
  if n = 0 then (none, { c with recvs := c.recvs + 1 })
  else (some (c.pending.take n), { c with pending := c.pending.drop n, recvs := c.recvs + 1 })

@[simp] theorem Conn.load_pending (env : Env) (c : Conn) : (c.load env).2.pending = c.pending := rfl

@[simp] theorem Conn.load_running (env : Env) (c : Conn) : (c.load env).2.running = c.running := rfl

@[simp] theorem Conn.store_pending (c : Conn) : c.store.pending = c.pending := rfl

@[simp] theorem Conn.store_running (c : Conn) : c.store.running = false := rfl

theorem Conn.load_reliable {env : Env} (henv : env.Reliable) (c : Conn) :
    (c.load env).1 = c.running := by
  simp [Conn.load, Env.stopped, henv.1]

/-- What a `recv` that returns data does: at least one and at most `len` of the next bytes. -/
theorem Conn.recv_some {env : Env} {c c' : Conn} {len : Nat} {b : List UInt8}
    (h : c.recv env len = (some b, c')) :
    0 < b.length ∧ b.length ≤ len ∧ c.pending = b ++ c'.pending ∧ c'.running = c.running := by
  simp only [Conn.recv] at h
  split at h
  · cases h
  · cases h
    simp only [List.length_take, List.take_append_drop, and_true]
    omega

theorem Conn.recv_none {env : Env} {c c' : Conn} {len : Nat} (h : c.recv env len = (none, c')) :
    c'.pending = c.pending ∧ c'.running = c.running := by
  simp only [Conn.recv] at h
  split at h <;> cases h
  exact ⟨rfl, rfl⟩

/-- In a reliable environment a `recv` of a positive `len` on a nonempty stream returns the next
    `min (recvCount k) len` bytes, at least one. -/
theorem Conn.recv_reliable {env : Env} (henv : env.Reliable) (c : Conn) {len : Nat} (hlen : 0 < len)
    (hne : c.pending ≠ []) :
    ∃ n, 0 < n ∧ n ≤ len ∧
      c.recv env len = (some (c.pending.take n), { c with pending := c.pending.drop n, recvs := c.recvs + 1 }) := by
  have hk := henv.2 c.recvs
  have hp := List.length_pos.mpr hne
  refine ⟨min (env.recvCount c.recvs) (min len c.pending.length), by omega, by omega, ?_⟩
  simp only [Conn.recv, if_neg (show ¬min (env.recvCount c.recvs) (min len c.pending.length) = 0 by omega)]

/-! ## 2. Reading a fixed number of bytes -/

/-- `while (filled < want && running_.load()) { n = recv(fd, buf + filled, want - filled, 0);
    if (n <= 0) { running_.store(false); break; } filled += n; }`, with the bytes received so
    far in `filled`. -/
def Conn.fill (env : Env) (want : Nat) (c : Conn) (filled : List UInt8) : Conn × List UInt8 :=
  if filled.length < want then
    if (c.load env).1 then
      match h : (c.load env).2.recv env (want - filled.length) with
      | (none, c') => (c'.store, filled)
      | (some b, c') => Conn.fill env want c' (filled ++ b)
    else ((c.load env).2, filled)
  else (c, filled)
termination_by c.pending.length
decreasing_by
  obtain ⟨hb, -, hp, -⟩ := Conn.recv_some h
  simp only [Conn.load_pending] at hp
  simp only [hp, List.length_append]
  omega

theorem Conn.fill_of_none {env : Env} {want : Nat} {c c' : Conn} {filled : List UInt8}
    (hlt : filled.length < want) (hload : (c.load env).1 = true)
    (h : (c.load env).2.recv env (want - filled.length) = (none, c')) :
    c.fill env want filled = (c'.store, filled) := by
  rw [Conn.fill, if_pos hlt, if_pos hload]
  split <;> simp_all

theorem Conn.fill_of_some {env : Env} {want : Nat} {c c' : Conn} {filled b : List UInt8}
    (hlt : filled.length < want) (hload : (c.load env).1 = true)
    (h : (c.load env).2.recv env (want - filled.length) = (some b, c')) :
    c.fill env want filled = c'.fill env want (filled ++ b) := by
  rw [Conn.fill, if_pos hlt, if_pos hload]
  split <;> simp_all

/-- **What the read loop can do.** In any environment it appends to `filled` some next bytes of
    the stream, never more than `want` in all. -/
theorem Conn.fill_spec (env : Env) (want : Nat) (c : Conn) (filled : List UInt8) :
    ∃ got, (c.fill env want filled).2 = filled ++ got ∧
      c.pending = got ++ (c.fill env want filled).1.pending ∧
      (filled.length ≤ want → filled.length + got.length ≤ want) := by
  induction c, filled using Conn.fill.induct env want with
  | case1 c filled hlt hload c' h =>
    rw [Conn.fill_of_none hlt hload h]
    exact ⟨[], by simp, by simp [(Conn.recv_none h).1], by simp⟩
  | case2 c filled hlt hload b c' h ih =>
    obtain ⟨got, h1, h2, h3⟩ := ih
    obtain ⟨-, hb, hp, -⟩ := Conn.recv_some h
    rw [Conn.fill_of_some hlt hload h]
    refine ⟨b ++ got, by rw [h1, List.append_assoc], ?_, fun _ => ?_⟩
    · simp only [Conn.load_pending] at hp
      rw [hp, h2, List.append_assoc]
    · have := h3 (by simp only [List.length_append]; omega)
      simp only [List.length_append] at this ⊢
      omega
  | case3 c filled hlt hload =>
    rw [Conn.fill, if_pos hlt, if_neg hload]
    exact ⟨[], by simp, by simp, by simp⟩
  | case4 c filled hge =>
    rw [Conn.fill, if_neg hge]
    exact ⟨[], by simp, by simp, by simp⟩

/-- `Conn.fill_spec` from empty: the bytes read begin the stream, and there are at most `want`. -/
theorem Conn.fill_nil {env : Env} {want : Nat} {c c' : Conn} {out : List UInt8}
    (h : c.fill env want [] = (c', out)) : c.pending = out ++ c'.pending ∧ out.length ≤ want := by
  obtain ⟨got, h1, h2, h3⟩ := Conn.fill_spec env want c []
  rw [h, List.nil_append] at h1
  rw [h] at h2
  subst h1
  exact ⟨h2, by simpa using h3⟩

/-- **A reliable environment fills the request.** With `running_` set and at least
    `want - filled` bytes left in the stream, the loop reads exactly the next ones and leaves
    `running_` set. -/
theorem Conn.fill_reliable {env : Env} (henv : env.Reliable) (want : Nat) (c : Conn)
    (filled : List UInt8) (hrun : c.running = true) (hlen : want ≤ filled.length + c.pending.length) :
    (c.fill env want filled).2 = filled ++ c.pending.take (want - filled.length) ∧
      (c.fill env want filled).1.pending = c.pending.drop (want - filled.length) ∧
      (c.fill env want filled).1.running = true := by
  induction c, filled using Conn.fill.induct env want with
  | case1 c filled hlt hload c' h =>
    obtain ⟨n, -, -, hr⟩ := Conn.recv_reliable henv (c.load env).2 (show 0 < want - filled.length by omega)
      (List.ne_nil_of_length_pos (by rw [Conn.load_pending]; omega))
    rw [hr] at h
    cases h
  | case2 c filled hlt hload b c' h ih =>
    obtain ⟨-, hb, hp, hr⟩ := Conn.recv_some h
    simp only [Conn.load_pending, Conn.load_running] at hp hr
    simp only [hp, List.length_append] at hlen
    obtain ⟨h1, h2, h3⟩ := ih (hr.trans hrun) (by simp only [List.length_append]; omega)
    have hb' : b.length ≤ want - filled.length := hb
    rw [Conn.fill_of_some hlt hload h, hp, List.take_append_eq_append_take,
      List.drop_append_eq_append_drop, List.take_of_length_le hb', List.drop_eq_nil_of_le hb']
    simp only [List.length_append, ← Nat.sub_sub] at h1 h2
    exact ⟨by rw [h1, List.append_assoc], by rw [h2, List.nil_append], h3⟩
  | case3 c filled hlt hload =>
    rw [Conn.load_reliable henv, hrun] at hload
    cases hload rfl
  | case4 c filled hge =>
    rw [Conn.fill, if_neg hge, Nat.sub_eq_zero_of_le (by omega)]
    exact ⟨by simp, by simp, hrun⟩

/-- `Conn.fill_reliable` from empty. -/
theorem Conn.fill_reliable_nil {env : Env} (henv : env.Reliable) {want : Nat} {c c' : Conn}
    {out : List UInt8} (hrun : c.running = true) (hlen : want ≤ c.pending.length)
    (h : c.fill env want [] = (c', out)) :
    out = c.pending.take want ∧ c'.pending = c.pending.drop want ∧ c'.running = true := by
  have := Conn.fill_reliable henv want c [] hrun (by simpa using hlen)
  rw [h] at this
  simpa using this

/-! ## 3. Runs that see the same environment

A run observes its environment only at the `running_.load()`s and `recv`s it makes, and makes them
in order: the `l`-th load, the `r`-th `recv`. Two environments that answer alike wherever a run
looks give that run the same result. -/

/-- `env` and `env'` answer alike every `running_.load()` and `recv` made while the counts of
    loads and `recv`s stay in `inb`, a set of count pairs closed downwards. -/
structure Env.AgreeWithin (env env' : Env) (inb : Nat → Nat → Bool) : Prop where
  mono : ∀ {l r l' r'}, l' ≤ l → r' ≤ r → inb l r → inb l' r'
  stopped_eq : ∀ {l r}, inb (l + 1) r → env.stopped l = env'.stopped l
  recvCount_eq : ∀ {l r}, inb l (r + 1) → env.recvCount r = env'.recvCount r

theorem Env.AgreeWithin.symm {env env' : Env} {inb : Nat → Nat → Bool}
    (h : env.AgreeWithin env' inb) : env'.AgreeWithin env inb :=
  ⟨h.mono, fun hin => (h.stopped_eq hin).symm, fun hin => (h.recvCount_eq hin).symm⟩

section
variable {env env' : Env} {inb : Nat → Nat → Bool}

end

end PublishH264
