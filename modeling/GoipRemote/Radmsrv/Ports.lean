import GoipRemote.Radmsrv.Radm

/-!
# The ports of the clients (`radmsrv_alloc_addr`)

`radmsrv_alloc_addr` hands out the ports of the range in turn. The next port is an `unsigned short` that
is compared with the end of the range after it was incremented: for a range that ends at 65535 it wraps
to 0 instead (`nthPort_wraps`), and for every other range the ports come in order (`nthPort_rotates`).
-/

namespace Radmsrv

/-- The port that the call number `n` of `radmsrv_alloc_addr` answers. -/
def nthPort : Nat → Server → UInt16
  | 0, s => (radmsrvAllocAddr s).1
  | n + 1, s => nthPort n (radmsrvAllocAddr s).2

/-- The number of ports in the range. -/
def Server.cycle (s : Server) : Nat := s.portMax.toNat - s.portMin.toNat + 1

section
variable {s : Server}

/-- **One call**, with the end of the range below 65535. -/
theorem allocAddr_next (hlt : s.portMin < s.portMax) (hmax : s.portMax.toNat < 65535) {j : Nat}
    (hj : j < s.cycle) (hget : s.getPort.toNat = s.portMin.toNat + j) :
    ∃ port, radmsrvAllocAddr s = (s.getPort, { s with getPort := port }) ∧
      port.toNat = s.portMin.toNat + (j + 1) % s.cycle := by
  have hlt' : s.portMin.toNat < s.portMax.toNat := UInt16.lt_iff_toNat_lt.1 hlt
  unfold Server.cycle at hj ⊢
  have hsucc : (s.getPort + 1).toNat = s.getPort.toNat + 1 := by
    rw [UInt16.toNat_add, UInt16.toNat_one]
    omega
  have hpos : s.portMax > 0 := UInt16.lt_iff_toNat_lt.2 (by simp; omega)
  refine ⟨_, if_pos hpos, ?_⟩
  by_cases hend : s.getPort + 1 > s.portMax
  · have hend' := UInt16.lt_iff_toNat_lt.1 hend
    have heq : j + 1 = s.portMax.toNat - s.portMin.toNat + 1 := by omega
    rw [if_pos hend, heq, Nat.mod_self]
    rfl
  · have hend' : (s.getPort + 1).toNat ≤ s.portMax.toNat := Nat.not_lt.1 fun hc =>
      hend (UInt16.lt_iff_toNat_lt.2 hc)
    rw [if_neg hend, hsucc, Nat.mod_eq_of_lt (by omega)]
    omega

theorem nthPort_rotates (hlt : s.portMin < s.portMax) (hmax : s.portMax.toNat < 65535) (n : Nat) :
    ∀ {s' : Server} {j : Nat}, s'.portMin = s.portMin → s'.portMax = s.portMax → j < s.cycle →
      s'.getPort.toNat = s.portMin.toNat + j →
      (nthPort n s').toNat = s.portMin.toNat + (j + n) % s.cycle := by
  induction n with
  | zero =>
    intro s' j h1 h2 hj hget
    obtain ⟨port, hrun, -⟩ := allocAddr_next (s := s') (by rw [h1, h2]; exact hlt) (by rw [h2]; exact hmax)
      (by rw [Server.cycle, h1, h2]; exact hj) (by rw [h1]; exact hget)
    rw [nthPort, hrun, hget, Nat.add_zero, Nat.mod_eq_of_lt hj]
  | succ n ih =>
    intro s' j h1 h2 hj hget
    obtain ⟨port, hrun, hport⟩ := allocAddr_next (s := s') (by rw [h1, h2]; exact hlt)
      (by rw [h2]; exact hmax) (by rw [Server.cycle, h1, h2]; exact hj) (by rw [h1]; exact hget)
    have hcycle : s'.cycle = s.cycle := by rw [Server.cycle, h1, h2]; rfl
    rw [h1, hcycle] at hport
    rw [nthPort, hrun]
    have hpos : 0 < s.cycle := Nat.succ_pos _
    have hnext := @ih { s' with getPort := port } _ h1 h2 (Nat.mod_lt _ hpos) hport
    rw [hnext, Nat.mod_add_mod]
    congr 2
    omega

/-- With the end of the range at 65535, the next port is never set back. -/
theorem nthPort_wraps (n : Nat) : ∀ {s : Server}, s.portMax.toNat = 65535 →
    (nthPort n s).toNat = (s.getPort.toNat + n) % 65536 := by
  induction n with
  | zero =>
    intro s hmax
    have hpos : s.portMax > 0 := UInt16.lt_iff_toNat_lt.2 (by simp [hmax])
    have hlt := s.getPort.toNat_lt
    rw [nthPort, radmsrvAllocAddr, if_pos hpos]
    show s.getPort.toNat = _
    omega
  | succ n ih =>
    intro s hmax
    have hpos : s.portMax > 0 := UInt16.lt_iff_toNat_lt.2 (by simp [hmax])
    have hle : ¬ s.getPort + 1 > s.portMax := fun hc => by
      have := UInt16.lt_iff_toNat_lt.1 hc
      have := (s.getPort + 1).toNat_lt
      omega
    have hrun : radmsrvAllocAddr s = (s.getPort, { s with getPort := s.getPort + 1 }) := by
      rw [radmsrvAllocAddr, if_pos hpos]
      simp only [if_neg hle]
    rw [nthPort, hrun, ih (s := { s with getPort := s.getPort + 1 }) hmax, UInt16.toNat_add, UInt16.toNat_one]
    omega

/-- The ports come in order, stay in the range, and each comes once in every cycle. -/
structure Rotates (s : Server) : Prop where
  law : ∀ n, (nthPort n s).toNat = s.portMin.toNat + n % s.cycle
  range : ∀ n, s.portMin ≤ nthPort n s ∧ nthPort n s ≤ s.portMax
  once : ∀ k port, s.portMin ≤ port → port ≤ s.portMax →
    ∃ i < s.cycle, ∀ j < s.cycle, nthPort (k * s.cycle + j) s = port ↔ j = i

theorem Rotates.of_law (hlt : s.portMin < s.portMax)
    (law : ∀ n, (nthPort n s).toNat = s.portMin.toNat + n % s.cycle) : Rotates s := by
  have hlt' : s.portMin.toNat < s.portMax.toNat := UInt16.lt_iff_toNat_lt.1 hlt
  have hcycle : s.cycle = s.portMax.toNat - s.portMin.toNat + 1 := rfl
  refine ⟨law, fun n => ?_, fun k port h1 h2 => ?_⟩
  · have hmod : n % s.cycle < s.cycle := Nat.mod_lt _ (Nat.succ_pos _)
    have hn := law n
    refine ⟨?_, ?_⟩
    · rw [UInt16.le_iff_toNat_le]
      omega
    · rw [UInt16.le_iff_toNat_le]
      omega
  · rw [UInt16.le_iff_toNat_le] at h1 h2
    refine ⟨port.toNat - s.portMin.toNat, by omega, fun j hj => ?_⟩
    have hn := law (k * s.cycle + j)
    rw [Nat.mul_comm, Nat.mul_add_mod, Nat.mod_eq_of_lt hj] at hn
    rw [← UInt16.toNat_inj, Nat.mul_comm, hn]
    omega

/-- **Port rotation** is right for every range that ends below 65535, and for no other. -/
theorem rotates_iff (hmin : 0 < s.portMin) (hlt : s.portMin < s.portMax) (hget : s.getPort = s.portMin) :
    Rotates s ↔ s.portMax < 65535 := by
  have hmin' : 0 < s.portMin.toNat := UInt16.lt_iff_toNat_lt.1 hmin
  have hlt' : s.portMin.toNat < s.portMax.toNat := UInt16.lt_iff_toNat_lt.1 hlt
  refine ⟨?_, ?_⟩
  · intro h
    by_contra hmax
    have hle := s.portMax.toNat_lt
    have hmax' : s.portMax.toNat = 65535 := by
      have : ¬ s.portMax.toNat < 65535 := fun hc => hmax (UInt16.lt_iff_toNat_lt.2 hc)
      omega
    -- after a cycle, the port is 0
    have hlaw := h.law s.cycle
    rw [nthPort_wraps s.cycle hmax', hget, Server.cycle, hmax', Nat.mod_self] at hlaw
    omega
  · intro hmax
    have hmax' : s.portMax.toNat < 65535 := UInt16.lt_iff_toNat_lt.1 hmax
    refine .of_law hlt fun n => ?_
    have hport : s.getPort.toNat = s.portMin.toNat + 0 := by rw [hget, Nat.add_zero]
    rw [nthPort_rotates hlt hmax' n rfl rfl (Nat.succ_pos _) hport, Nat.zero_add]

end

/-- A process that hands out the ports from `portMin` to `portMax`. -/
def Server.initPorts (portMin portMax : UInt16) : Server :=
  .init (fun _ => ⟨0, 0⟩) (fun _ => ⟨-1, 0, 0⟩) (fun _ => ⟨0, .radmsrvAccept⟩) (.ofBuf []) portMin portMax
    portMin

theorem rotates_iff_small :
    Rotates (.initPorts 8000 8009) ↔ (Server.initPorts 8000 8009).portMax < 65535 :=
  rotates_iff (by decide) (by decide) rfl

/-- After the ports 65534 and 65535 comes 0. -/
theorem ports_wrap : ¬ Rotates (.initPorts 65534 65535) := by
  intro h
  have hlow := (h.range 2).1
  revert hlow
  decide

end Radmsrv
