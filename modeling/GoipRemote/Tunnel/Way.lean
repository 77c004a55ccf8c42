import GoipRemote.Relay.FlowControl

/-!
# One way through the tunnel

A text goes from the outer socket of one end, through its cipher into the TCP connection between the two
programs, and through the cipher of the other end to its outer socket. `Carries` says what one end has
read and sent of it, and `Way` puts the two ends and the connection together: what comes out is a prefix
of what went in (`Way.output_prefix`), and all of it when nothing is under way (`Way.output_eq`).
-/

namespace Tunnel

open Utils Relay Function

/-- How many bytes were taken from `fd`. -/
def received (p p' : Proc) (fd : Int) : Nat := (p'.rcvd fd).length - (p.rcvd fd).length

/-- What was given to `fd`. -/
def added (p p' : Proc) (fd : Int) : List UInt8 := (p'.sent fd).drop (p.sent fd).length

/-- Where an end has its outer socket, that of the user or of the local service: nowhere yet, in a
`struct fwd`, or nowhere any more, as the end has given the connection up. -/
inductive Stage where
  | waiting
  | joined (fwd : Ptr) (sock : Int)
  | lost
  deriving DecidableEq, Repr

namespace Stage

/-- What has come out at the outer socket. -/
def output (p : Proc) : Stage → List UInt8
  | joined _ sock => p.sent sock
  | _ => []

/-- What waits at the outer socket, of `queue` before the process came from `p` to `p'`. -/
def queue (p p' : Proc) (queue : List UInt8) : Stage → List UInt8
  | joined _ sock => queue.drop (received p p' sock)
  | _ => queue

/-- What is under way to a `struct fwd` is all that is under way, once there is one. -/
def channel (chan : List UInt8) : Stage → List UInt8
  | joined _ _ => chan
  | _ => []

/-- There is no `struct fwd`. -/
def Away (stage : Stage) : Prop := ∀ fwd sock, stage ≠ joined fwd sock

end Stage

/-- A callback of a `struct fwd`, with the number of bytes that `recv` answers where there are as many
(`none` is an error). -/
inductive FwdCall where
  | read (d : Side) (recv : Option Nat) (send : SendResult)
  | write (d : Side) (send : SendResult)
  deriving DecidableEq, Repr

/-- The callback of the `struct fwd` at `fwd` whose sockets have the queues. -/
def FwdCall.event (fwd : Ptr) (queue : Side → List UInt8) : FwdCall → FwdEvent
  | .read d recv send => .read d fwd (recv.map fun n => (queue d).take n) send
  | .write d send => .write d fwd send

section
variable {ι : Type} {e : Ext ι} {p p' : Proc} {q : Ptr} {fd : Int} {f f' : Fwd} {d : Side} {k : Rc4State}
  {stage : Stage} {got out bytes : List UInt8}

theorem received_eq (h : p'.rcvd fd = p.rcvd fd ++ bytes) : received p p' fd = bytes.length := by
  rw [received, h, List.length_append, Nat.add_sub_cancel_left]

theorem added_eq (h : p'.sent fd = p.sent fd ++ bytes) : added p p' fd = bytes := by
  rw [added, h, List.drop_left]

/-- What a callback of the `struct fwd` at `q` does, with the queues of its sockets: the `struct fwd` is
released, or it passes on what it took. -/
inductive Called (queue : Side → List UInt8) (q : Ptr) (p p' : Proc) : Prop where
  | released (hf : p'.fwds q = none) (hsent : p'.sent = p.sent)
  | passed (f f' : Fwd) (hf : p.fwds q = some f) (hf' : p'.fwds q = some f') (h : Passed f f' p p')
      (htook : ∀ d, ∃ bytes, p'.rcvd (f d).sock = p.rcvd (f d).sock ++ bytes ∧ bytes <+: queue d)

theorem called_self (hi : Held e p) (queue : Side → List UInt8) : Called queue q p p := by
  cases hf : p.fwds q with
  | none => exact .released hf rfl
  | some f =>
    exact .passed f f hf hf (hi.intact hf).passed fun _ => ⟨[], (List.append_nil _).symm, List.nil_prefix⟩

/-- **A callback of the `struct fwd`**, registered or not. -/
theorem fwdCall_called [DecidableEq ι] (hi : ProcInv e p) {call : FwdCall} {queue : Side → List UInt8}
    (hrun : p.fwdStep (call.event q queue) = .ok p') : Called queue q p p' := by
  have hrelayed : ∀ f d bytes taken h, p.fwds q = some f → Relayed d q f bytes taken h p p' →
      bytes <+: queue d → Called queue q p p' := by
    intro f d bytes taken h hf hr htook
    refine .passed f _ hf (by rw [hr.fwds, update_self]) (hr.passed hi.toHeld hf) fun c => ?_
    by_cases hc : c = d
    · subst hc
      exact ⟨bytes, by rw [hr.rcvd, update_self], htook⟩
    · refine ⟨[], ?_, List.nil_prefix⟩
      rw [hr.rcvd, update_of_ne fun h => hc (Prod.mk.inj (hi.sock_inj hf hf h)).2, List.append_nil]
  have hclosed : ∀ f, Closed q f p p' → Called queue q p p' := fun f hc =>
    .released (by rw [hc.fwds, update_self]) hc.sent
  cases call with
  | read d recv send =>
    rw [FwdCall.event, Proc.fwdStep] at hrun
    split at hrun
    · obtain ⟨f, hf, hbuf⟩ := registered_read hi ‹_›
      obtain ⟨p₁, hp₁, -, hc | ⟨bytes, taken, h, hr, hrecv⟩⟩ := readCallback_ok hi hf hbuf
        (recv.map fun n => (queue d).take n) send
      · obtain rfl := Res.ok.inj (hp₁.symm.trans hrun)
        exact hclosed f hc
      · obtain rfl := Res.ok.inj (hp₁.symm.trans hrun)
        apply hrelayed f d bytes taken h hf hr
        obtain ⟨all, hall, rfl⟩ := Option.map_eq_some_iff.1 hrecv
        obtain ⟨n, -, rfl⟩ := Option.map_eq_some_iff.1 hall
        exact (List.take_prefix 512 _).trans (List.take_prefix n _)
    · cases hrun
      exact called_self hi.toHeld queue
  | write d send =>
    rw [FwdCall.event, Proc.fwdStep] at hrun
    split at hrun
    · obtain ⟨f, hf, hbuf⟩ := registered_write hi ‹_›
      obtain ⟨p₁, hp₁, -, hc | ⟨taken, h, hr⟩⟩ := writeCallback_ok hi hf hbuf send
      · obtain rfl := Res.ok.inj (hp₁.symm.trans hrun)
        exact hclosed f hc
      · obtain rfl := Res.ok.inj (hp₁.symm.trans hrun)
        exact hrelayed f d [] taken h hf hr List.nil_prefix
    · cases hrun
      exact called_self hi.toHeld queue

/-! ## One end -/

/-- A side of an end has read `got` and sent `out`: out of the cipher from the state `k`, in order, but
for what its buffer holds. -/
inductive Carries (p : Proc) (d : Side) (k : Rc4State) : Stage → List UInt8 → List UInt8 → Prop where
  | waiting : Carries p d k .waiting [] []
  | lost : Carries p d k .lost [] []
  | live {q : Ptr} {fd : Int} {f : Fwd} {got out : List UInt8} (hf : p.fwds q = some f)
      (hrc4 : p.rc4 (f d).rc4 = some (rc4Advance got.length k))
      (hout : out ++ (f d).rest = (rc4Crypt k got).1) : Carries p d k (.joined q fd) got out
  | released {q : Ptr} {fd : Int} {got out : List UInt8} (hf : p.fwds q = none)
      (hout : out <+: (rc4Crypt k got).1) : Carries p d k (.joined q fd) got out

/-- The end's `struct fwd` was released. -/
def Released (p : Proc) : Stage → Prop
  | .joined q _ => p.fwds q = none
  | _ => False

theorem Carries.isPrefix (h : Carries p d k stage got out) : out <+: (rc4Crypt k got).1 := by
  cases h with
  | waiting => exact List.nil_prefix
  | lost => exact List.nil_prefix
  | live hf hrc4 hout => exact ⟨_, hout⟩
  | released hf hout => exact hout

theorem Carries.pass (h : Carries p d k (.joined q fd) got out) (hf : p.fwds q = some f)
    (hf' : p'.fwds q = some f') (hp : Passed f f' p p') :
    ∃ bytes taken, p'.rcvd (f d).sock = p.rcvd (f d).sock ++ bytes ∧
      p'.sent (f d.other).sock = p.sent (f d.other).sock ++ taken ∧
      Carries p' d k (.joined q fd) (got ++ bytes) (out ++ taken) := by
  cases h with
  | released hnone =>
    rw [hf] at hnone
    cases hnone
  | live hlive hrc4 hout =>
    cases hf.symm.trans hlive
    obtain ⟨st, bytes, taken, hst, hrc4', hrcvd, hsent, hpass⟩ := hp.stream d
    obtain rfl := Option.some.inj (hrc4.symm.trans hst)
    refine ⟨bytes, taken, hrcvd, hsent, .live hf' ?_ ?_⟩
    · rw [hp.rc4, hrc4', List.length_append, rc4Advance_add]
    · calc out ++ taken ++ (f' d).rest
          = out ++ (f d).rest ++ (rc4Crypt (rc4Advance got.length k) bytes).1 := by
            rw [List.append_assoc, hpass, List.append_assoc]
        _ = (rc4Crypt k (got ++ bytes)).1 := by rw [hout, rc4Crypt_append]

/-- The end is not released, and its buffers are empty. -/
def Drained (p : Proc) (stage : Stage) : Prop :=
  ∀ q fd, stage = .joined q fd → ∃ f, p.fwds q = some f ∧ ∀ d, (f d).buf = []

theorem Drained.not_released (h : Drained p stage) : ¬ Released p stage := by
  intro hr
  cases stage with
  | joined q fd =>
    obtain ⟨f, hf, -⟩ := h q fd rfl
    rw [show p.fwds q = none from hr] at hf
    cases hf
  | waiting => exact hr
  | lost => exact hr

theorem Carries.eq_of_drained (h : Carries p d k stage got out) (hd : Drained p stage) :
    out = (rc4Crypt k got).1 := by
  cases h with
  | waiting => rfl
  | lost => rfl
  | live hf hrc4 hout =>
    obtain ⟨f', hf', hbuf⟩ := hd _ _ rfl
    cases hf.symm.trans hf'
    rw [← hout, Half.rest, hbuf, List.drop_nil, List.append_nil]
  | released hf hout => exact absurd hf hd.not_released

theorem Stage.Away.output_eq (hs : stage.Away) (p : Proc) : stage.output p = [] := by
  cases stage with
  | joined q fd => exact absurd rfl (hs q fd)
  | _ => rfl

theorem Stage.Away.channel_eq (hs : stage.Away) (chan : List UInt8) : stage.channel chan = [] := by
  cases stage with
  | joined q fd => exact absurd rfl (hs q fd)
  | _ => rfl

theorem Stage.Away.not_released (hs : stage.Away) : ¬ Released p stage := by
  cases stage with
  | joined q fd => exact absurd rfl (hs q fd)
  | _ => exact fun hr => hr

/-- An end without a `struct fwd` carries nothing, whatever its process does. -/
theorem Carries.away (h : Carries p d k stage got out) (hs : stage.Away) :
    Carries p' d k stage got out := by
  cases h with
  | waiting => exact .waiting
  | lost => exact .lost
  | live => exact absurd rfl (hs _ _)
  | released => exact absurd rfl (hs _ _)

theorem Carries.eq_nil (h : Carries p d k stage got out) (hs : stage.Away) : got = [] ∧ out = [] := by
  cases h with
  | waiting => exact ⟨rfl, rfl⟩
  | lost => exact ⟨rfl, rfl⟩
  | live => exact absurd rfl (hs _ _)
  | released => exact absurd rfl (hs _ _)

/-- A new `struct fwd` has carried nothing. -/
theorem Carries.join (hf : p.fwds q = some f) (hrc4 : p.rc4 (f d).rc4 = some k)
    (hbuf : (f d).buf = []) : Carries p d k (.joined q fd) [] [] := by
  refine .live hf hrc4 ?_
  rw [Half.rest, hbuf, List.drop_nil]
  rfl

end

/-! ## Both ends -/

/-- A text on its way: `got` of the `input` was read from the outer socket of the first end and became
`out`, and `got'` of that was read by the second end and became the `output`. -/
structure Way (k : Rc4State) (input queue : List UInt8) (p₁ : Proc) (s₁ : Stage) (chan : List UInt8)
    (p₂ : Proc) (s₂ : Stage) (output got out got' : List UInt8) : Prop where
  feed : got <+: input
  queue : ¬ Released p₁ s₁ → got ++ queue = input
  source : Carries p₁ .p k s₁ got out
  link : got' <+: out
  chan : ¬ Released p₂ s₂ → got' ++ chan = out
  sink : Carries p₂ .t k s₂ got' output

namespace Way

variable {k : Rc4State} {input queue chan output got out got' : List UInt8} {p₁ p₁' p₂ p₂' : Proc}
  {s₁ s₁' s₂ s₂' : Stage}

/-- **What comes out** is what went in, up to some point. -/
theorem output_isPrefix (h : Way k input queue p₁ s₁ chan p₂ s₂ output got out got') : output <+: input :=
  rc4Crypt_relay k h.feed h.source.isPrefix h.link h.sink.isPrefix

/-- **All of it** comes out. -/
theorem output_eq (h : Way k input queue p₁ s₁ chan p₂ s₂ output got out got') (h₁ : Drained p₁ s₁)
    (h₂ : Drained p₂ s₂) (hqueue : queue = []) (hchan : chan = []) : output = input := by
  have hgot := h.queue h₁.not_released
  have hgot' := h.chan h₂.not_released
  rw [hqueue, List.append_nil] at hgot
  rw [hchan, List.append_nil] at hgot'
  rw [h.sink.eq_of_drained h₂, hgot', h.source.eq_of_drained h₁, rc4Crypt_rc4Crypt, hgot]

/-- More is sent. -/
theorem more (h : Way k input queue p₁ s₁ chan p₂ s₂ output got out got') (bytes : List UInt8) :
    Way k (input ++ bytes) (queue ++ bytes) p₁ s₁ chan p₂ s₂ output got out got' :=
  { h with
    feed := h.feed.trans (List.prefix_append input bytes)
    queue := fun hr => by rw [← List.append_assoc, h.queue hr] }

theorem setSource (h : Way k input queue p₁ s₁ chan p₂ s₂ output got out got')
    (hsource : Carries p₁' .p k s₁' got out) (hr : ¬ Released p₁ s₁) :
    Way k input queue p₁' s₁' chan p₂ s₂ output got out got' :=
  { h with
    queue := fun _ => h.queue hr
    source := hsource }

theorem setSink (h : Way k input queue p₁ s₁ chan p₂ s₂ output got out got')
    (hsink : Carries p₂' .t k s₂' got' output) (hr : ¬ Released p₂ s₂) :
    Way k input queue p₁ s₁ chan p₂' s₂' output got out got' :=
  { h with
    chan := fun _ => h.chan hr
    sink := hsink }

end Way

section
variable {k : Rc4State} {input queue chan output got out got' : List UInt8} {p₁ p₁' p₂ p₂' : Proc}
  {s₁ s₂ : Stage} {q : Ptr} {fd tsock : Int} {queues : Side → List UInt8}

/-- The sockets of the `struct fwd` at `q`. -/
def Ends (p : Proc) (q : Ptr) (tsock fd : Int) : Prop :=
  ∀ f, p.fwds q = some f → (f .t).sock = tsock ∧ (f .p).sock = fd

/-- **A callback at the end where the text comes in.** -/
theorem Way.source_called (h : Way k input queue p₁ (.joined q fd) chan p₂ s₂ output got out got')
    (hends : Ends p₁ q tsock fd) (hc : Called queues q p₁ p₁') (hqueue : queues .p = queue) :
    ∃ got out, Way k input (queue.drop (received p₁ p₁' fd)) p₁' (.joined q fd)
      (chan ++ added p₁ p₁' tsock) p₂ s₂ output got out got' := by
  cases hc with
  | released hf hsent =>
    have hadded : added p₁ p₁' tsock = [] := by rw [added, hsent, List.drop_length]
    rw [hadded, List.append_nil]
    exact ⟨got, out, h.feed, fun hr => absurd hf hr, .released hf h.source.isPrefix, h.link, h.chan, h.sink⟩
  | passed f f' hf hf' hp htook =>
    obtain ⟨htsock, hfd⟩ := hends f hf
    obtain ⟨bytes, taken, hrcvd, hsent, hcarries⟩ := h.source.pass hf hf' hp
    obtain ⟨bytes', hrcvd', htook⟩ := htook .p
    obtain rfl := List.append_cancel_left (hrcvd.symm.trans hrcvd')
    rw [hfd] at hrcvd
    rw [show (f Side.p.other).sock = tsock from htsock] at hsent
    rw [received_eq hrcvd, added_eq hsent]
    have hlive : ¬ Released p₁ (.joined q fd) := fun hr => by
      rw [show p₁.fwds q = none from hr] at hf
      cases hf
    have hsplit : bytes ++ queue.drop bytes.length = queue :=
      List.prefix_iff_eq_append.1 (hqueue ▸ htook)
    have hall : got ++ bytes ++ queue.drop bytes.length = input := by
      rw [List.append_assoc, hsplit, h.queue hlive]
    refine ⟨got ++ bytes, out ++ taken, ?_, fun _ => hall, hcarries,
      h.link.trans (List.prefix_append out taken), fun hr => ?_, h.sink⟩
    · rw [← hall]
      exact List.prefix_append _ _
    · rw [← List.append_assoc, h.chan hr]

/-- **A callback at the end where the text comes out.** -/
theorem Way.sink_called (h : Way k input queue p₁ s₁ chan p₂ (.joined q fd) (p₂.sent fd) got out got')
    (hends : Ends p₂ q tsock fd) (hc : Called queues q p₂ p₂') (hqueue : queues .t = chan) :
    ∃ got', Way k input queue p₁ s₁ (chan.drop (received p₂ p₂' tsock)) p₂' (.joined q fd) (p₂'.sent fd)
      got out got' := by
  cases hc with
  | released hf hsent =>
    rw [hsent]
    exact ⟨got', h.feed, h.queue, h.source, h.link, fun hr => absurd hf hr, .released hf h.sink.isPrefix⟩
  | passed f f' hf hf' hp htook =>
    obtain ⟨htsock, hfd⟩ := hends f hf
    obtain ⟨bytes, taken, hrcvd, hsent, hcarries⟩ := h.sink.pass hf hf' hp
    obtain ⟨bytes', hrcvd', htook⟩ := htook .t
    obtain rfl := List.append_cancel_left (hrcvd.symm.trans hrcvd')
    rw [htsock] at hrcvd
    rw [show (f Side.t.other).sock = fd from hfd] at hsent
    rw [received_eq hrcvd, hsent]
    have hlive : ¬ Released p₂ (.joined q fd) := fun hr => by
      rw [show p₂.fwds q = none from hr] at hf
      cases hf
    have hsplit : bytes ++ chan.drop bytes.length = chan :=
      List.prefix_iff_eq_append.1 (hqueue ▸ htook)
    have hall : got' ++ bytes ++ chan.drop bytes.length = out := by
      rw [List.append_assoc, hsplit, h.chan hlive]
    refine ⟨got' ++ bytes, h.feed, h.queue, h.source, ?_, fun _ => hall, hcarries⟩
    rw [← hall]
    exact List.prefix_append _ _

theorem Ends.called (h : Ends p₁ q tsock fd) (hc : Called queues q p₁ p₁') : Ends p₁' q tsock fd := by
  intro f' hf'
  cases hc with
  | released hnone =>
    rw [hnone] at hf'
    cases hf'
  | passed f f'' hf hf'' hp =>
    cases hf''.symm.trans hf'
    rw [hp.sock, hp.sock]
    exact h f hf

/-! ## A new `struct fwd` -/

/-- The sockets were joined in a `struct fwd`, with the cipher states for what comes from `psock` and
from `tsock`. -/
structure Joined (p p' : Proc) (q : Ptr) (tsock psock : Int) (kp kt : Rc4State) : Prop where
  fresh : p.fwds q = none
  fwd : ∃ enc dec, p'.fwds q = some (newFwd tsock psock enc dec) ∧ p'.rc4 enc = some kp ∧
    p'.rc4 dec = some kt
  rcvd : p'.rcvd tsock = p.rcvd tsock
  sent : p'.sent tsock = p.sent tsock
  output : p'.sent psock = []

variable {psock : Int} {kp kt : Rc4State}

theorem Joined.ends (h : Joined p₁ p₁' q tsock psock kp kt) : Ends p₁' q tsock psock := by
  intro f hf
  obtain ⟨enc, dec, hf', -, -⟩ := h.fwd
  cases hf.symm.trans hf'
  exact ⟨rfl, rfl⟩

theorem Joined.source (h : Joined p₁ p₁' q tsock psock kp kt) :
    Carries p₁' .p kp (.joined q psock) [] [] := by
  obtain ⟨enc, dec, hf, henc, -⟩ := h.fwd
  exact .join hf henc rfl

theorem Joined.sink (h : Joined p₁ p₁' q tsock psock kp kt) :
    Carries p₁' .t kt (.joined q psock) [] [] := by
  obtain ⟨enc, dec, hf, -, hdec⟩ := h.fwd
  exact .join hf hdec rfl

end

end Tunnel
