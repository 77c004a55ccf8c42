import GoipRemote.Radmsrv.Registry
import GoipRemote.Utils.TimerOwner

/-!
# The addresses that may connect

`Addresses s q ds idle`: `ip_list` has the entries `ds`, one an address, and each has the timer that
the latest `add_ip` of its address started; an address has an entry exactly as long as that timer has
not fired (`Pending`, read off the log). The timers of `s` are those of the entries and of the clients.
-/

namespace Radmsrv

open Utils Relay Function LinkedList CString Datalist

/-- A client is not heard of for half an hour, and a log in lasts a day. -/
def TimerCallBack.interval : TimerCallBack → Nat
  | .timeoutDel => 30 * 60 * 1000
  | .ipTimeout => 60 * 60 * 24 * 1000

/-- The timers of the server. -/
def Server.timerOf (s : Server) : TimerCallBack → Ptr → Option Ptr
  | .timeoutDel, x => (s.objects x).map Radmcli.deltimer
  | .ipTimeout, x => (s.ipDatas x).map IpData.timer

/-- The entries of `ip_list`. -/
structure Ips (ipList : Datalist) (ipDatas : Ptr → Option IpData) (ds : List Ptr) : Prop where
  rep : ipList.Rep ds
  mem : ∀ p, p ∈ ds ↔ (ipDatas p).isSome = true
  nodup : ds.Nodup
  zero : ipDatas 0 = none
  unique : ∀ p q d e, ipDatas p = some d → ipDatas q = some e → d.ip = e.ip → p = q

/-- `t` is the timer that the address has had since its latest log in, and it has not fired since. -/
def Pending (ip : UInt32) (t : Ptr) (log : List Note) : Prop :=
  ∃ post pre, log = post ++ .added ip t :: pre ∧ (∀ t', .added ip t' ∉ post) ∧ .fired t ∉ post

/-- The entries are the pending addresses. -/
def Logged (log : List Note) (ipDatas : Ptr → Option IpData) : Prop :=
  ∀ ip t, Pending ip t log ↔ ∃ p, ipDatas p = some ⟨ip, t⟩

/-- The invariant (module doc). -/
structure Addresses (s : Server) (q : Queue) (ds : List Ptr) (idle : Ptr → Prop) : Prop where
  timed : Timed TimerCallBack.interval s.timers q s.timerOf idle
  ips : Ips s.ipList s.ipDatas ds
  log : Logged s.log s.ipDatas

/-! ## The log -/

section
variable {ip : UInt32} {t : Ptr} {n : Note} {log : List Note}

theorem pending_cons : Pending ip t (n :: log) ↔
    n = .added ip t ∨ (∀ t', n ≠ .added ip t') ∧ n ≠ .fired t ∧ Pending ip t log := by
  refine ⟨?_, ?_⟩
  · rintro ⟨post, pre, hlog, hadd, hfire⟩
    cases post with
    | nil =>
      rw [List.nil_append, List.cons.injEq] at hlog
      exact .inl hlog.1
    | cons m post =>
      rw [List.cons_append, List.cons.injEq] at hlog
      obtain ⟨rfl, rfl⟩ := hlog
      refine .inr ⟨fun t' hn => hadd t' (hn ▸ List.mem_cons_self),
        fun hn => hfire (hn ▸ List.mem_cons_self), post, pre, rfl, fun t' ht' => ?_, fun ht => ?_⟩
      · exact hadd t' (List.mem_cons_of_mem _ ht')
      · exact hfire (List.mem_cons_of_mem _ ht)
  · rintro (rfl | ⟨hadd, hfire, post, pre, rfl, hadd', hfire'⟩)
    · exact ⟨[], log, rfl, by simp, by simp⟩
    · refine ⟨n :: post, pre, rfl, fun t' ht' => ?_, fun ht => ?_⟩
      · rcases List.mem_cons.1 ht' with hn | ht'
        · exact hadd t' hn.symm
        · exact hadd' t' ht'
      · rcases List.mem_cons.1 ht with hn | ht
        · exact hfire hn.symm
        · exact hfire' ht

theorem pending_added {ip' : UInt32} {t' : Ptr} : Pending ip t (.added ip' t' :: log) ↔
    ip' = ip ∧ t' = t ∨ ip' ≠ ip ∧ Pending ip t log := by
  rw [pending_cons]
  simp only [Note.added.injEq, not_and, ne_eq, reduceCtorEq, not_false_eq_true, true_and]
  refine ⟨?_, ?_⟩
  · rintro (h | ⟨hne, h⟩)
    · exact .inl h
    · exact .inr ⟨fun hc => hne t' hc rfl, h⟩
  · rintro (h | ⟨hne, h⟩)
    · exact .inl h
    · exact .inr ⟨fun _ hc => absurd hc hne, h⟩

theorem pending_fired {t' : Ptr} : Pending ip t (.fired t' :: log) ↔ t' ≠ t ∧ Pending ip t log := by
  rw [pending_cons]
  simp

theorem pending_expired {t' cli : Ptr} {before after : List (Ptr × Radmcli)} :
    Pending ip t (.expired t' cli before after :: log) ↔ Pending ip t log := by
  rw [pending_cons]
  simp

end

/-! ## The functions of the list -/

section
variable {s : Server} {q : Queue} {ds : List Ptr} {idle : Ptr → Prop}

theorem getIpData_cases {ipDatas : Ptr → Option IpData} (hs : s.ipDatas = ipDatas)
    (h : Ips s.ipList ipDatas ds) (ip : UInt32) :
    (∃ p d, getIpData s ip = .ok p ∧ p ≠ 0 ∧ ipDatas p = some d ∧ d.ip = ip) ∨
      getIpData s ip = .ok 0 ∧ ∀ p d, ipDatas p = some d → d.ip ≠ ip := by
  subst hs
  obtain ⟨l, f, hl, rfl⟩ := h.rep
  have hdata : ∀ it ∈ l, ∃ d, s.ipDatas (s.ipList.its it).data = some d := fun it hit =>
    Option.isSome_iff_exists.1 ((h.mem _).1 (List.mem_map_of_mem hit))
  let test := fun it => Res.deref s.ipDatas (s.ipList.its it).data >>= fun d => .ok (decide (d.ip = ip))
  let isIp := fun it => (s.ipDatas (s.ipList.its it).data).any fun d => d.ip = ip
  have htest : ∀ it ∈ l, test it = .ok (isIp it) := by
    intro it hit
    obtain ⟨d, hd⟩ := hdata it hit
    simp only [test, isIp, Res.deref_of_some hd, Res.ok_bind, hd, Option.any_some]
  have hrun : getIpData s ip = walk s.ipList.next test s.ipList.brk s.ipList.first >>= fun it =>
      .ok (if it = 0 then 0 else (s.ipList.its it).data) := rfl
  rcases walk_cases hl.list hl.length_lt htest with ⟨it, hit, hip, hwalk⟩ | ⟨hnone, hwalk⟩
  · obtain ⟨d, hd⟩ := hdata it hit
    have hp : (s.ipList.its it).data ≠ 0 := by
      intro hc
      rw [hc, h.zero] at hd
      cases hd
    refine .inl ⟨_, d, ?_, hp, hd, by simpa [isIp, hd] using hip⟩
    rw [hrun, hwalk, Res.ok_bind, if_neg (hl.list.ne_zero it hit)]
  · refine .inr ⟨by rw [hrun, hwalk, Res.ok_bind, if_pos rfl], ?_⟩
    intro p d hd hip
    obtain ⟨it, hit, rfl⟩ := List.mem_map.1 ((h.mem p).2 (by rw [hd]; rfl))
    have hfalse := hnone it hit
    simp only [isIp, hd, Option.any_some, decide_eq_false_iff_not] at hfalse
    exact hfalse hip

/-- Whether there is an entry of the address. -/
theorem getIpData_pending (h : Addresses s q ds idle) (ip : UInt32) :
    ∃ p, getIpData s ip = .ok p ∧ (p ≠ 0 ↔ ∃ t, Pending ip t s.log) := by
  rcases getIpData_cases rfl h.ips ip with ⟨p, d, hget, hp, hd, rfl⟩ | ⟨hget, hno⟩
  · refine ⟨p, hget, ?_⟩
    refine ⟨?_, ?_⟩
    · intro _
      exact ⟨d.timer, (h.log d.ip d.timer).2 ⟨p, hd⟩⟩
    · intro _
      exact hp
  · refine ⟨0, hget, ?_⟩
    refine ⟨?_, ?_⟩
    · intro hc
      exact absurd rfl hc
    · rintro ⟨t, ht⟩
      obtain ⟨p, hp⟩ := (h.log ip t).1 ht
      exact absurd rfl (hno p _ hp)

theorem Ips.insert {ipList : Datalist} {ipDatas : Ptr → Option IpData} {x : Ptr} {d : IpData}
    (h : Ips ipList ipDatas ds) (hx : x ≠ 0) (hnone : ipDatas x = none)
    (hnew : ∀ p e, ipDatas p = some e → e.ip ≠ d.ip) :
    Ips (datalistAppend ipList x) (update ipDatas x (some d)) (ds ++ [x]) := by
  have hxd : x ∉ ds := fun hm => by
    rw [h.mem, hnone] at hm
    cases hm
  refine ⟨datalistAppend_rep h.rep x, fun p => ?_, ?_, ?_, fun p r e e' he he' hip => ?_⟩
  · rw [List.mem_append, h.mem, List.mem_singleton]
    by_cases hp : p = x <;> simp [hp]
  · exact h.nodup.append (List.nodup_singleton x) (by simpa using hxd)
  · rw [update_of_ne (Ne.symm hx), h.zero]
  · by_cases hp : p = x <;> by_cases hr : r = x
    · rw [hp, hr]
    · rw [hp, update_self] at he
      rw [update_of_ne hr] at he'
      cases he
      exact absurd hip.symm (hnew r e' he')
    · rw [hr, update_self] at he'
      rw [update_of_ne hp] at he
      cases he'
      exact absurd hip (hnew p e he)
    · rw [update_of_ne hp] at he
      rw [update_of_ne hr] at he'
      exact h.unique p r e e' he he' hip

theorem Ips.erase {ipList ipList' : Datalist} {ipDatas : Ptr → Option IpData} {x : Ptr}
    (h : Ips ipList ipDatas ds) (hrep : ipList'.Rep (ds.erase x)) :
    Ips ipList' (update ipDatas x none) (ds.erase x) := by
  have hof : ∀ p d, update ipDatas x none p = some d → ipDatas p = some d := by
    intro p d hd
    by_cases hp : p = x
    · rw [hp, update_self] at hd
      cases hd
    · rwa [update_of_ne hp] at hd
  refine ⟨hrep, fun p => ?_, h.nodup.erase x, ?_, fun p r d e hd he => ?_⟩
  · rw [h.nodup.mem_erase_iff, h.mem]
    by_cases hp : p = x <;> simp [hp]
  · by_cases hx : 0 = x
    · rw [hx, update_self]
    · rw [update_of_ne hx, h.zero]
  · exact h.unique p r d e (hof p d hd) (hof r e he)

theorem timerOf_ip {s' : Server} {x : Ptr} {v : Option IpData} (hobjects : s'.objects = s.objects)
    (hdatas : s'.ipDatas = update s.ipDatas x v) :
    s'.timerOf .ipTimeout x = v.map IpData.timer ∧
      ∀ k' x', ¬ (k' = .ipTimeout ∧ x' = x) → s'.timerOf k' x' = s.timerOf k' x' := by
  refine ⟨?_, ?_⟩
  · simp [Server.timerOf, hdatas]
  · intro k' x' hne
    cases k' with
    | timeoutDel => simp [Server.timerOf, hobjects]
    | ipTimeout =>
      have hx : x' ≠ x := fun hc => hne ⟨rfl, hc⟩
      simp [Server.timerOf, hdatas, hx]

/-- The timer that is found for an address is that of its entry. -/
theorem Ips.ipTimer (h : Ips s.ipList s.ipDatas ds) {p : Ptr} {d : IpData} (hd : s.ipDatas p = some d) :
    s.ipTimer d.ip = d.timer := by
  rcases getIpData_cases rfl h d.ip with ⟨r, e, hget, -, he, hip⟩ | ⟨-, hno⟩
  · obtain rfl := h.unique r p e d he hd hip
    simp [Server.ipTimer, hget, hd]
  · exact absurd rfl (hno p d hd)

/-- **`add_ip`**: the entry of the address has the timer that was started, and the others are as they
were. -/
theorem addIp_ok (h : Addresses s q ds fun _ => False) (ip : UInt32) (x t : Ptr) :
    addIp s ip x t = .exit ∨ ∃ timers ipList ipDatas t' s' q' ds', addIp s ip x t = .ok s' ∧
      s' = { s with timers := timers, ipList := ipList, ipDatas := ipDatas } ∧
      timers.inCheckTimeoutLock = s.timers.inCheckTimeoutLock ∧
      Timed TimerCallBack.interval s'.timers q' s'.timerOf (fun _ => False) ∧ Ips ipList ipDatas ds' ∧
      ∀ ip' u, (∃ p, ipDatas p = some ⟨ip', u⟩) ↔
        ip = ip' ∧ t' = u ∨ ip ≠ ip' ∧ ∃ p, s.ipDatas p = some ⟨ip', u⟩ := by
  unfold addIp
  rcases getIpData_cases rfl h.ips ip with ⟨p, d, hget, hp, hd, rfl⟩ | ⟨hget, hno⟩
  · -- the entry's timer starts anew
    have howner : s.timerOf .ipTimeout p = some d.timer := by simp [Server.timerOf, hd]
    obtain ⟨ts, r, q', hstart, hfr, htimed⟩ := h.timed.start (h.timed.isSome howner)
    refine .inr ⟨ts, s.ipList, s.ipDatas, d.timer, _, q', ds, ?_, rfl, hfr.lock, ?_, h.ips, fun ip' t' => ?_⟩
    · simp only [hget, Res.ok_bind, if_pos hp, Res.deref_of_some hd, hstart, Res.pure_eq]
    · exact htimed.congr (fun _ _ => rfl) fun _ hi => hi.1
    · refine ⟨?_, ?_⟩
      · rintro ⟨p', hp'⟩
        by_cases hip : d.ip = ip'
        · obtain rfl := h.ips.unique _ _ _ _ hd hp' hip
          rw [hd] at hp'
          cases hp'
          exact .inl ⟨rfl, rfl⟩
        · exact .inr ⟨hip, p', hp'⟩
      · rintro (⟨rfl, rfl⟩ | ⟨-, hp'⟩)
        · exact ⟨p, hd⟩
        · exact hp'
  · simp only [hget, Res.ok_bind, ne_eq, not_true_eq_false, if_false]
    by_cases hfresh : x = 0 ∨ (s.ipDatas x).isSome = true ∨ t = 0 ∨ (s.timers.timers t).isSome = true
    · exact .inl (if_pos hfresh)
    obtain ⟨hx, hxs, ht, hts⟩ : x ≠ 0 ∧ s.ipDatas x = none ∧ t ≠ 0 ∧ s.timers.timers t = none := by
      simpa [not_or] using hfresh
    obtain ⟨howner, hother⟩ := timerOf_ip (s := s)
      (rfl : Server.objects { s with ipDatas := update s.ipDatas x (some ⟨ip, t⟩) } = s.objects) rfl
    have hcreate := h.timed.create ht hts (by simp [Server.timerOf, hxs]) howner hother
    obtain ⟨ts, r, q', hstart, hfr, htimed⟩ := hcreate.start (t := t) (hcreate.isSome howner)
    refine .inr ⟨ts, datalistAppend s.ipList x, update s.ipDatas x (some ⟨ip, t⟩), t, _, q', ds ++ [x],
      ?_, rfl, ?_, htimed.congr (fun _ _ => rfl) fun y hi => hi.2 (hi.1.resolve_left id),
      h.ips.insert hx hxs hno, fun ip' t' => ?_⟩
    · have hstart' : startTimer (createTimer s.timers t (60 * 60 * 24 * 1000) x .ipTimeout) t 1 =
          .ok (ts, r) := hstart
      simp only [if_neg hfresh, hstart', Res.ok_bind, Res.pure_eq]
    · rw [hfr.lock, createTimer, if_neg ht]
    · refine ⟨?_, ?_⟩
      · rintro ⟨p, hp⟩
        by_cases hpx : p = x
        · rw [hpx, update_self] at hp
          cases hp
          exact .inl ⟨rfl, rfl⟩
        · rw [update_of_ne hpx] at hp
          exact .inr ⟨fun hc => hno p _ hp hc.symm, p, hp⟩
      · rintro (⟨rfl, rfl⟩ | ⟨-, p, hp⟩)
        · exact ⟨x, update_self ..⟩
        · refine ⟨p, ?_⟩
          rw [update_of_ne, hp]
          rintro rfl
          rw [hxs] at hp
          cases hp

/-- **A log in** is noted with the timer that its address has from then on. -/
theorem ctlIp_ok (h : Addresses s q ds fun _ => False) (ip : UInt32) (x t : Ptr) :
    radmsrvCtl s (.ip ip x t) = .exit ∨
      ∃ timers ipList ipDatas t' s' q' ds', radmsrvCtl s (.ip ip x t) = .ok s' ∧
        s' = { s with timers := timers, ipList := ipList, ipDatas := ipDatas,
                      log := .added ip t' :: s.log } ∧
        timers.inCheckTimeoutLock = s.timers.inCheckTimeoutLock ∧
        Addresses s' q' ds' fun _ => False := by
  rw [radmsrvCtl]
  rcases addIp_ok h ip x t with hrun | ⟨timers, ipList, ipDatas, t', s₁, q', ds', hrun, rfl, hlock, htimed,
    hips, hentries⟩
  · exact .inl (by rw [hrun]; rfl)
  · rw [hrun]
    obtain ⟨p, hp⟩ := (hentries ip t').2 (.inl ⟨rfl, rfl⟩)
    let s₁ : Server := { s with timers := timers, ipList := ipList, ipDatas := ipDatas }
    have htimer : s₁.ipTimer ip = t' := Ips.ipTimer (s := s₁) hips hp
    have hctl : (Res.ok s₁ >>= fun s => pure { s with log := .added ip (s.ipTimer ip) :: s.log } : Res Server) =
        .ok { s₁ with log := .added ip t' :: s.log } := by
      rw [← htimer]
      rfl
    refine .inr ⟨timers, ipList, ipDatas, t', _, q', ds', hctl, rfl, hlock,
      htimed.congr (fun _ _ => rfl) fun _ hi => hi, hips, fun ip' u => ?_⟩
    rw [pending_added, h.log]
    exact (hentries ip' u).symm

/-- The timer of a client fires. -/
theorem Logged.fired_client {k : TimerCallBack} {x t : Ptr} (h : Logged s.log s.ipDatas)
    (htimed : Timed TimerCallBack.interval s.timers q s.timerOf idle) (hk : k ≠ .ipTimeout)
    (ht : s.timerOf k x = some t) :
    Logged (.fired t :: s.log) s.ipDatas := by
  intro ip t'
  rw [pending_fired, h]
  refine ⟨?_, ?_⟩
  · exact fun hp => hp.2
  · rintro ⟨p, hp⟩
    refine ⟨?_, p, hp⟩
    rintro rfl
    have howner : s.timerOf .ipTimeout p = some t := by simp [Server.timerOf, hp]
    exact hk (htimed.owner_inj howner ht).1

/-- **`ip_timeout`**, when the timer of the entry fires. -/
theorem ipTimeout_ok {x t : Ptr}
    (htimed : Timed TimerCallBack.interval s.timers q s.timerOf fun y => False ∨ y = t)
    (hips : Ips s.ipList s.ipDatas ds) (hlog : Logged s.log s.ipDatas)
    (ht : s.timerOf .ipTimeout x = some t) :
    ∃ timers ipList s', ipTimeout { s with log := .fired t :: s.log } x = .ok s' ∧
      s' = { s with timers := timers, ipList := ipList, ipDatas := update s.ipDatas x none,
                    log := .fired t :: s.log } ∧
      timers.inCheckTimeoutLock = s.timers.inCheckTimeoutLock ∧
      Addresses s' (q.remove t) (ds.erase x) fun _ => False := by
  obtain ⟨d, hd, rfl⟩ := Option.map_eq_some_iff.1 ht
  obtain ⟨ipList, r, hremove, hrep⟩ := datalistRemoveData_rep hips.rep x
  obtain ⟨hnone, hother⟩ := timerOf_ip (s := s)
    (rfl : Server.objects { s with ipDatas := update s.ipDatas x none } = s.objects) rfl
  obtain ⟨ts, hdestroy, hlock, htimed'⟩ := htimed.destroy ht hnone hother
  refine ⟨ts, ipList, _, ?_, rfl, hlock, ?_, hips.erase hrep, ?_⟩
  · simp only [ipTimeout, Res.deref_of_some hd, Res.ok_bind, hremove, hdestroy, Res.pure_eq]
  · exact htimed'.congr (fun _ _ => rfl) fun y hi => hi.2 (hi.1.resolve_left id)
  · intro ip t'
    rw [pending_fired, hlog]
    refine ⟨?_, ?_⟩
    · rintro ⟨hne, p, hp⟩
      refine ⟨p, ?_⟩
      show update s.ipDatas x none p = _
      rw [update_of_ne, hp]
      rintro rfl
      rw [hd] at hp
      cases hp
      exact hne rfl
    · rintro ⟨p, hp⟩
      change update s.ipDatas x none p = _ at hp
      by_cases hpx : p = x
      · rw [hpx, update_self] at hp
        cases hp
      · rw [update_of_ne hpx] at hp
        refine ⟨?_, p, hp⟩
        rintro rfl
        have howner : s.timerOf .ipTimeout p = some d.timer := by simp [Server.timerOf, hp]
        exact hpx (htimed.owner_inj ht howner).2

end

end Radmsrv
