import UnicityPow.Discouraged
import UnicityPow.KeyList
import UnicityPow.Shedding

/-!
# Who leaves the discouraged table

The table never has more than 10000 entries. Room is made before it is known whether any is needed:
a call for an address that a full table already has costs another address its entry, unless its own
is the one that goes.
-/

namespace UnicityPow

open KeyList Shedding

namespace DiscouragedTable

/-- The order of eviction: an entry expires earlier than another, or with it and has the smaller key. -/
def Before (a b : String × Int) : Prop := a.2 < b.2 ∨ a.2 = b.2 ∧ compare a.1 b.1 = .lt

theorem Before.trans {a b d : String × Int} (h : Before a b) (h' : Before b d) : Before a d := by
  rcases h with h | ⟨h, hk⟩ <;> rcases h' with h' | ⟨h', hk'⟩
  · exact .inl (h.trans h')
  · exact .inl (h' ▸ h)
  · exact .inl (h ▸ h')
  · exact .inr ⟨h.trans h', Std.TransCmp.lt_trans hk hk'⟩

theorem Before.le {a b : String × Int} (h : Before a b) : a.2 ≤ b.2 := h.elim le_of_lt fun h => h.1.le

theorem Before.irrefl (a : String × Int) : ¬ Before a a := by
  rintro (h | ⟨-, h⟩)
  · exact lt_irrefl _ h
  · have hself : compare a.1 a.1 = .eq := Std.ReflCmp.compare_self
    rw [hself] at h
    cases h

/-! ## The entry that goes -/

/-- The pass of the eviction over entries. -/
def firstOut (best : String × Int) (l : List (String × Int)) : String × Int :=
  l.foldl (fun best kv => if kv.2 < best.2 then kv else best) best

/-- Over entries in the order of their keys it ends with the first in the order of eviction. -/
theorem firstOut_before : ∀ (l : List (String × Int)) (best : String × Int),
    (best :: l).Pairwise (fun a b => compare a.1 b.1 = .lt) →
    firstOut best l ∈ best :: l ∧ ∀ x ∈ best :: l, x ≠ firstOut best l → Before (firstOut best l) x
  | [], best, _ => ⟨List.mem_cons_self, fun x hx hne => absurd (List.mem_singleton.mp hx) hne⟩
  | y :: l, best, hsorted => by
    obtain ⟨hbest, hrest⟩ := List.pairwise_cons.mp hsorted
    have hstep : firstOut best (y :: l) = firstOut (if y.2 < best.2 then y else best) l := rfl
    rw [hstep]
    split
    · rename_i hlt
      obtain ⟨hmem, hlead⟩ := firstOut_before l y hrest
      refine ⟨List.mem_cons_of_mem best hmem, fun x hx hne => ?_⟩
      rcases List.mem_cons.mp hx with rfl | hx
      · have hyx : Before y x := .inl hlt
        by_cases hy : y = firstOut y l
        · rwa [← hy]
        · exact (hlead y List.mem_cons_self hy).trans hyx
      · exact hlead x hx hne
    · rename_i hge
      have hsub : (best :: l).Pairwise (fun a b => compare a.1 b.1 = .lt) :=
        List.pairwise_cons.mpr ⟨fun x hx => hbest x (List.mem_cons_of_mem y hx), (List.pairwise_cons.mp hrest).2⟩
      obtain ⟨hmem, hlead⟩ := firstOut_before l best hsub
      have hby : Before best y := by
        rcases lt_or_eq_of_le (not_lt.mp hge) with h | h
        · exact .inl h
        · exact .inr ⟨h, hbest y List.mem_cons_self⟩
      refine ⟨?_, fun x hx hne => ?_⟩
      · rcases List.mem_cons.mp hmem with h | h
        · rw [h]
          exact List.mem_cons_self
        · exact List.mem_cons_of_mem best (List.mem_cons_of_mem y h)
      · rcases List.mem_cons.mp hx with rfl | hx
        · exact hlead x List.mem_cons_self hne
        rcases List.mem_cons.mp hx with rfl | hx
        · by_cases hb : best = firstOut best l
          · rwa [← hb]
          · exact (hlead best List.mem_cons_self hb).trans hby
        · exact hlead x (List.mem_cons_of_mem best hx) hne

section
variable {d : DiscouragedTable} {now : Int}

theorem earliestExpiry_spec (hne : d.size ≠ 0) : ∃ victim e, NetworkManager.earliestExpiry d.toList = some victim ∧
    d[victim]? = some e ∧ ∀ (k : String) (e' : Int), d[k]? = some e' → k ≠ victim → Before (victim, e) (k, e') := by
  have hsorted := d.ordered_keys_toList
  have hmem : ∀ kv : String × Int, kv ∈ d.toList ↔ d[kv.1]? = some kv.2 :=
    fun kv => Std.ExtTreeMap.mem_toList_iff_getElem?_eq_some
  rw [← Std.ExtTreeMap.length_toList] at hne
  generalize d.toList = l at hsorted hmem hne
  cases l with
  | nil => exact absurd rfl hne
  | cons kv l =>
    obtain ⟨hin, hlead⟩ := firstOut_before l kv hsorted
    refine ⟨_, _, rfl, (hmem _).mp hin, fun k e' hk hkey => hlead (k, e') ((hmem (k, e')).mpr hk) fun h => hkey ?_⟩
    exact congrArg Prod.fst h

/-! ## Making room -/

theorem getElem?_unexpired {k : String} {e : Int} : (d.unexpired now)[k]? = some e ↔ d[k]? = some e ∧ now < e := by
  unfold unexpired
  rw [Tally.getElem?_filter, Option.filter_eq_some_iff, decide_eq_true_eq]

theorem unexpired_eq (h : d.size ≤ (d.unexpired now).size) : d.unexpired now = d := by
  refine Std.ExtTreeMap.ext_getElem? fun k => Option.ext fun e => ?_
  rw [getElem?_unexpired]
  refine and_iff_left_of_imp fun hk => ?_
  by_contra hexp
  -- without the expired entry there are fewer
  have hle : (d.unexpired now).size ≤ (d.erase k).size + ([] : List String).length := by
    refine size_le_of_keys fun k' hk' => .inl (mem_erase_iff.mpr ⟨?_, Std.ExtTreeMap.mem_of_mem_filter hk'⟩)
    rintro rfl
    rw [Std.ExtTreeMap.mem_iff_isSome_getElem?, Option.isSome_iff_exists] at hk'
    obtain ⟨e', hk'⟩ := hk'
    obtain ⟨hget, hlt⟩ := getElem?_unexpired.mp hk'
    rw [hk] at hget
    cases hget
    exact hexp hlt
  have hsize := Tally.size_erase hk
  rw [List.length_nil] at hle
  omega

variable (now) in
/-- Room is made at the cost of expired entries, or at that of the first in the order of eviction. -/
theorem makeRoom_cases (hd : d.size ≤ 10000) :
    ((d.unexpired now).size < 10000 ∧ (d.makeRoom now).size < 10000 ∧
      ∀ (k : String) (e : Int), d[k]? = some e → now < e → (d.makeRoom now)[k]? = some e) ∨
    (d.unexpired now = d ∧ d.size = 10000 ∧ ∃ victim e, d[victim]? = some e ∧
      (∀ (k : String) (e' : Int), d[k]? = some e' → k ≠ victim → Before (victim, e) (k, e')) ∧ d.makeRoom now = d.erase victim) := by
  have hle : (d.unexpired now).size ≤ d.size := Std.ExtTreeMap.size_filter_le_size
  unfold makeRoom MAX_DISCOURAGED
  by_cases hfull : 10000 ≤ d.size
  · dsimp only
    rw [if_pos hfull]
    by_cases hstill : 10000 ≤ (d.unexpired now).size
    · have hsame := unexpired_eq (hd.trans hstill)
      obtain ⟨victim, e, hvictim, hget, hlead⟩ := earliestExpiry_spec (d := d) (by omega)
      rw [hsame, if_pos hfull, hvictim]
      exact .inr ⟨rfl, by omega, victim, e, hget, hlead, rfl⟩
    · rw [if_neg hstill]
      exact .inl ⟨by omega, by omega, fun k e hk hlt => getElem?_unexpired.mpr ⟨hk, hlt⟩⟩
  · dsimp only
    rw [if_neg hfull, if_neg hfull]
    exact .inl ⟨by omega, by omega, fun k e hk _ => hk⟩

theorem makeRoom_kept (hd : d.size ≤ 10000) {k : String} {e : Int} (hk : d[k]? = some e) (hlt : now < e) :
    (d.makeRoom now)[k]? = some e ∨ k ∉ d.makeRoom now := by
  rcases makeRoom_cases now hd with ⟨-, -, hkept⟩ | ⟨-, -, victim, ev, -, -, hroom⟩
  · exact .inl (hkept k e hk hlt)
  · rw [hroom, mem_erase_iff]
    by_cases hkv : k = victim
    · exact .inr fun h => h.1 hkv
    · left
      rw [Std.ExtTreeMap.getElem?_erase, if_neg fun h => hkv (Std.LawfulEqCmp.eq_of_compare h).symm]
      exact hk

theorem size_insert_makeRoom (hd : d.size ≤ 10000) (key : String) (e : Int) :
    ((d.makeRoom now).insert key e).size ≤ 10000 := by
  have hroom : (d.makeRoom now).size < 10000 := by
    rcases makeRoom_cases now hd with ⟨-, h, -⟩ | ⟨-, hsize, victim, e, hget, -, h⟩
    · exact h
    · rw [h]
      have := Tally.size_erase hget
      omega
  exact Std.ExtTreeMap.size_insert_le.trans hroom

end

/-! ## One call -/

/-- What a call for an address with the key `key` may remove of the entries that have not expired:
none, or, to make room for a new key in a table of 10000 of them, one that expires first. -/
structure Disciplined (now : Int) (key : String) (d d' : DiscouragedTable) : Prop where
  only : ∀ (k : String) (e : Int), d[k]? = some e → now < e → k ∉ d' → key ∉ d ∧ (d.unexpired now).size = 10000
  one : key ∉ d → (d.unexpired now).size = 10000 → Sheds id 1 d (d'.erase key)

/-- If the key is in a table of 10000 entries that have not expired, then its own is the first in
the order of eviction. -/
def Spares (now : Int) (key : String) (d : DiscouragedTable) : Prop :=
  ∀ own : Int, d[key]? = some own → (d.unexpired now).size = 10000 →
    ∀ (k : String) (e : Int), d[k]? = some e → k ≠ key → Before (key, own) (k, e)

section
variable {d : DiscouragedTable} {now e : Int} {key k : String}

theorem mem_of_getElem? (h : d[k]? = some e) : k ∈ d :=
  Std.ExtTreeMap.mem_iff_isSome_getElem?.mpr (by rw [h]; rfl)

theorem disciplined_insert_iff (hd : d.size ≤ 10000) (expiry : Int) :
    Disciplined now key d ((d.makeRoom now).insert key expiry) ↔ Spares now key d := by
  rcases makeRoom_cases now hd with ⟨hfew, -, hkept⟩ | ⟨hsame, hsize, victim, ev, hv, hlead, hroom⟩
  · have hne : (d.unexpired now).size ≠ 10000 := by omega
    refine iff_of_true ⟨fun k e hk hlt hout => ?_, fun _ h => absurd h hne⟩ fun _ _ h => absurd h hne
    exact absurd ((mem_insert_iff expiry).mpr (.inr (mem_of_getElem? (hkept k e hk hlt)))) hout
  · have hfull : (d.unexpired now).size = 10000 := by rw [hsame, hsize]
    have hall : ∀ (k : String) (e : Int), d[k]? = some e → now < e := fun k e hk =>
      (getElem?_unexpired.mp (hsame.symm ▸ hk)).2
    rw [hroom]
    constructor
    · intro h own hown _ k e hk hne
      by_cases hkv : victim = key
      · subst hkv
        rw [hv] at hown
        cases hown
        exact hlead k e hk hne
      · -- another entry has gone although the key was there
        have hgone : victim ∉ (d.erase victim).insert key expiry := by
          rw [mem_insert_iff, mem_erase_iff]
          rintro (h | ⟨h, -⟩)
          · exact hkv h
          · exact h rfl
        exact absurd (mem_of_getElem? hown) (h.only victim ev hv (hall victim ev hv) hgone).1
    · intro h
      refine ⟨fun k e hk _ hout => ⟨fun hin => ?_, hfull⟩, fun hnew _ => ?_⟩
      · rw [mem_insert_iff, mem_erase_iff, not_or, not_and] at hout
        have hkv : k = victim := by
          by_contra hne
          exact hout.2 hne (mem_of_getElem? hk)
        subst hkv
        rw [Std.ExtTreeMap.mem_iff_isSome_getElem?, Option.isSome_iff_exists] at hin
        obtain ⟨own, hown⟩ := hin
        have hforth := h own hown hfull k e hk hout.1
        rw [hv] at hk
        cases hk
        exact Before.irrefl _ (hforth.trans (hlead key own hown (Ne.symm hout.1)))
      · have hback : ((d.erase victim).insert key expiry).erase key = d.erase victim := by
          refine Std.ExtTreeMap.ext_getElem? fun k => ?_
          rw [Std.ExtTreeMap.getElem?_erase, Std.ExtTreeMap.getElem?_insert]
          split
          · rename_i heq
            rw [← Std.LawfulEqCmp.eq_of_compare heq]
            refine (Std.ExtTreeMap.getElem?_eq_none fun hin => hnew ?_).symm
            exact (mem_erase_iff.mp hin).2
          · rfl
        rw [hback]
        refine sheds_erase hv fun k e hk => ?_
        by_cases hkv : k = victim
        · subst hkv
          rw [hv] at hk
          cases hk
          exact le_rfl
        · exact (hlead k e hk hkv).le

end

/-! ## Runs -/

/-- A call for a new key that finds the table full and removes the entry of `key`. -/
def Displaces (normalize : String → Option String) (d : DiscouragedTable) (op : DiscourageOp) (key : String) : Prop :=
  ∃ now address new, op = .discourage now address ∧ normalize address = some new ∧ new ∉ d ∧
    (d.unexpired now).size = 10000 ∧ key ∈ d ∧ key ∉ d.step normalize op

/-- A run in which the bound and the discipline hold, and in which an address is discouraged for
the whole of its time unless the table is cleared or a new address displaces it. -/
structure Orderly (normalize : String → Option String) (l : List DiscourageOp) : Prop where
  bounded : ∀ l', l' <+: l → (run normalize l').size ≤ 10000
  disciplined : ∀ before now address after key, l = before ++ .discourage now address :: after →
    normalize address = some key →
    Disciplined now key (run normalize before) (run normalize (before ++ [.discourage now address]))
  stays : ∀ before now address middle after key t, l = before ++ .discourage now address :: (middle ++ after) →
    normalize address = some key → (∀ op ∈ middle, op.now ≤ t ∧ op.isClear = false) →
    t < now + DISCOURAGE_DURATION_SEC →
    (run normalize (before ++ .discourage now address :: middle)).isDiscouraged normalize t address = true ∨
    ∃ m op m', middle = m ++ op :: m' ∧
      Displaces normalize (run normalize (before ++ .discourage now address :: m)) op key

section
variable {normalize : String → Option String}

theorem run_snoc (l : List DiscourageOp) (op : DiscourageOp) :
    run normalize (l ++ [op]) = (run normalize l).step normalize op := by
  unfold run
  rw [List.foldl_append, List.foldl_cons, List.foldl_nil]

theorem size_step {d : DiscouragedTable} (hd : d.size ≤ 10000) (op : DiscourageOp) : (d.step normalize op).size ≤ 10000 := by
  cases op with
  | discourage now address =>
    change (d.discourage normalize now address).size ≤ 10000
    unfold discourage
    split
    · exact hd
    · exact size_insert_makeRoom hd _ _
  | sweepDiscouraged now => exact Std.ExtTreeMap.size_filter_le_size.trans hd
  | clearDiscouraged now => exact Nat.zero_le _

theorem size_run (normalize : String → Option String) (l : List DiscourageOp) : (run normalize l).size ≤ 10000 :=
  List.foldlRecOn (motive := fun d : DiscouragedTable => d.size ≤ 10000) l _ (Nat.zero_le _) fun _ h op _ => size_step h op

theorem step_discourage (d : DiscouragedTable) (now : Int) {address key : String} (hkey : normalize address = some key) :
    d.step normalize (.discourage now address) = (d.makeRoom now).insert key (now + DISCOURAGE_DURATION_SEC) := by
  change d.discourage normalize now address = _
  unfold discourage
  rw [hkey]

theorem disciplined_run_iff {before : List DiscourageOp} {now : Int} {address key : String}
    (hkey : normalize address = some key) :
    Disciplined now key (run normalize before) (run normalize (before ++ [.discourage now address])) ↔
      Spares now key (run normalize before) := by
  rw [run_snoc, step_discourage _ now hkey]
  exact disciplined_insert_iff (size_run normalize before) _

/-- One call between the discouragement of an address, at `since`, and the time `t`. -/
theorem stays_step {d : DiscouragedTable} {key : String} {since t e : Int} {op : DiscourageOp}
    (hd : d.size ≤ 10000) (hspares : ∀ now address new, op = .discourage now address →
      normalize address = some new → Spares now new d)
    (hin : d[key]? = some e) (he : since + DISCOURAGE_DURATION_SEC ≤ e) (hfrom : since ≤ op.now) (hto : op.now ≤ t)
    (hclear : op.isClear = false) (ht : t < since + DISCOURAGE_DURATION_SEC) :
    (∃ e', (d.step normalize op)[key]? = some e' ∧ since + DISCOURAGE_DURATION_SEC ≤ e') ∨
      Displaces normalize d op key := by
  cases op with
  | clearDiscouraged now => cases hclear
  | sweepDiscouraged now =>
    have hlt : now < e := lt_of_le_of_lt hto (lt_of_lt_of_le ht he)
    exact .inl ⟨e, getElem?_unexpired.mpr ⟨hin, hlt⟩, he⟩
  | discourage now address =>
    cases hnew : normalize address with
    | none =>
      refine .inl ⟨e, ?_, he⟩
      change (d.discourage normalize now address)[key]? = some e
      unfold discourage
      rwa [hnew]
    | some new =>
      have hstep := step_discourage d now hnew
      by_cases hsame : new = key
      · subst hsame
        refine .inl ⟨now + DISCOURAGE_DURATION_SEC, ?_, Int.add_le_add_right hfrom _⟩
        rw [hstep, Std.ExtTreeMap.getElem?_insert_self]
      have hlt : now < e := lt_of_le_of_lt hto (lt_of_lt_of_le ht he)
      rcases makeRoom_kept hd hin hlt with hkept | hgone
      · refine .inl ⟨e, ?_, he⟩
        rw [hstep, Std.ExtTreeMap.getElem?_insert, if_neg fun h => hsame (Std.LawfulEqCmp.eq_of_compare h)]
        exact hkept
      · have hout : key ∉ d.step normalize (.discourage now address) := by
          rw [hstep, mem_insert_iff, not_or]
          exact ⟨Ne.symm hsame, hgone⟩
        have hdis := (disciplined_insert_iff hd (now + DISCOURAGE_DURATION_SEC)).mpr (hspares now address new rfl hnew)
        rw [← hstep] at hdis
        obtain ⟨hfresh, hfull⟩ := hdis.only key e hin hlt hout
        exact .inr ⟨now, address, new, rfl, hnew, hfresh, hfull, mem_of_getElem? hin, hout⟩

/-- What the calls of a run do to the entry of an address; the induction is on the calls since. -/
theorem stays_run {before middle : List DiscourageOp} {now t : Int} {address key : String}
    (hkey : normalize address = some key) (hclock : Clocked (before ++ .discourage now address :: middle))
    (hspares : ∀ before' now' address' after' new, before ++ .discourage now address :: middle =
      before' ++ .discourage now' address' :: after' → normalize address' = some new →
      Spares now' new (run normalize before'))
    (hmiddle : ∀ op ∈ middle, op.now ≤ t ∧ op.isClear = false) (ht : t < now + DISCOURAGE_DURATION_SEC) :
    (∃ e, (run normalize (before ++ .discourage now address :: middle))[key]? = some e ∧
      now + DISCOURAGE_DURATION_SEC ≤ e) ∨
    ∃ m op m', middle = m ++ op :: m' ∧
      Displaces normalize (run normalize (before ++ .discourage now address :: m)) op key := by
  induction middle using List.reverseRecOn with
  | nil =>
    refine .inl ⟨now + DISCOURAGE_DURATION_SEC, ?_, le_rfl⟩
    rw [run_snoc, step_discourage _ now hkey, Std.ExtTreeMap.getElem?_insert_self]
  | append_singleton middle op ih =>
    have hassoc : before ++ .discourage now address :: (middle ++ [op]) =
        (before ++ .discourage now address :: middle) ++ [op] := by simp
    rw [hassoc] at hclock hspares ⊢
    have hfrom : now ≤ op.now := (List.pairwise_append.mp hclock).2.2 (.discourage now address) (by simp) op (by simp)
    obtain ⟨hto, hclear⟩ := hmiddle op (by simp)
    have hearlier : ∀ before' now' address' after' new, before ++ .discourage now address :: middle =
        before' ++ .discourage now' address' :: after' → normalize address' = some new →
        Spares now' new (run normalize before') := by
      intro before' now' address' after' new heq hnew
      refine hspares before' now' address' (after' ++ [op]) new ?_ hnew
      rw [heq, List.append_assoc, List.cons_append]
    rcases ih (List.pairwise_append.mp hclock).1 hearlier (fun op' h => hmiddle op' (List.mem_append_left _ h))
      with ⟨e, hin, he⟩ | ⟨m, op', m', rfl, hdis⟩
    · rw [run_snoc]
      have hlast : ∀ now' address' new, op = .discourage now' address' → normalize address' = some new →
          Spares now' new (run normalize (before ++ .discourage now address :: middle)) :=
        fun now' address' new hop hnew => hspares _ now' address' [] new (by rw [hop]) hnew
      rcases stays_step (size_run normalize _) hlast hin he hfrom hto hclear ht with hstay | hdis
      · exact .inl hstay
      · exact .inr ⟨middle, op, [], rfl, hdis⟩
    · exact .inr ⟨m, op', m' ++ [op], List.append_assoc _ _ _, hdis⟩

theorem isDiscouraged_of_get {d : DiscouragedTable} {address key : String} {e t : Int} (hkey : normalize address = some key)
    (hin : d[key]? = some e) (ht : t < e) : d.isDiscouraged normalize t address = true := by
  unfold isDiscouraged
  rw [hkey, Option.bind_some, hin]
  exact decide_eq_true ht

end

/-! ## A full table -/

/-- The addresses from 2001:db8::1000 on. -/
def hostName (j : Nat) : String :=
  "2001:db8::" ++ String.ofList [Nat.digitChar ((4096 + j) / 4096 % 16), Nat.digitChar ((4096 + j) / 256 % 16),
    Nat.digitChar ((4096 + j) / 16 % 16), Nat.digitChar ((4096 + j) % 16)]

theorem digitChar_inj : ∀ a < 16, ∀ b < 16, Nat.digitChar a = Nat.digitChar b → a = b := by decide

theorem hostName_inj {i j : Nat} (hi : i < 61440) (hj : j < 61440) (h : hostName i = hostName j) : i = j := by
  have hlist := congrArg String.toList h
  simp only [hostName, String.toList_append, List.append_cancel_left_eq, String.toList_ofList, List.cons.injEq,
    and_true] at hlist
  obtain ⟨h3, h2, h1, h0⟩ := hlist
  have h3 := digitChar_inj _ (Nat.mod_lt _ (by omega)) _ (Nat.mod_lt _ (by omega)) h3
  have h2 := digitChar_inj _ (Nat.mod_lt _ (by omega)) _ (Nat.mod_lt _ (by omega)) h2
  have h1 := digitChar_inj _ (Nat.mod_lt _ (by omega)) _ (Nat.mod_lt _ (by omega)) h1
  have h0 := digitChar_inj _ (Nat.mod_lt _ (by omega)) _ (Nat.mod_lt _ (by omega)) h0
  omega

/-- One call a second, each for another address. -/
def fill (n : Nat) : List DiscourageOp := (List.range n).map (fun j : Nat => .discourage (j : Int) (hostName j))

/-- The last address is discouraged once more. -/
def fillAndRepeat : List DiscourageOp := fill 10000 ++ [.discourage 10000 (hostName 9999)]

structure Filled (n : Nat) (d : DiscouragedTable) : Prop where
  size : d.size = n
  entry : ∀ j < n, d[hostName j]? = some (j + DISCOURAGE_DURATION_SEC)
  keys : ∀ k ∈ d, ∃ j < n, k = hostName j

theorem filled_run : ∀ n ≤ 10000, Filled n (run some (fill n))
  | 0, _ => ⟨rfl, fun j hj => absurd hj (Nat.not_lt_zero j), fun k hk => absurd hk Std.ExtTreeMap.not_mem_empty⟩
  | n + 1, hn => by
    have ih := filled_run n (by omega)
    have hfill : fill (n + 1) = fill n ++ [.discourage n (hostName n)] := by
      unfold fill
      rw [List.range_succ, List.map_append, List.map_singleton]
    have hroom : (run some (fill n)).makeRoom n = run some (fill n) := by
      have hsmall : ¬ MAX_DISCOURAGED ≤ (run some (fill n)).size := by
        rw [ih.size]
        exact Nat.not_le.mpr hn
      unfold makeRoom
      rw [if_neg hsmall, if_neg hsmall]
    have hnew : hostName n ∉ run some (fill n) := by
      intro hin
      obtain ⟨j, hj, heq⟩ := ih.keys _ hin
      have := hostName_inj (by omega) (by omega) heq
      omega
    rw [hfill, run_snoc, step_discourage _ _ rfl, hroom]
    refine ⟨?_, fun j hj => ?_, fun k hk => ?_⟩
    · rw [Std.ExtTreeMap.size_insert, if_neg (by simpa using hnew), ih.size]
    · rw [Std.ExtTreeMap.getElem?_insert]
      split
      · rename_i heq
        have := hostName_inj (by omega) (by omega) (Std.LawfulEqCmp.eq_of_compare heq)
        rw [this]
      · rename_i hne
        refine ih.entry j ((Nat.lt_succ_iff_lt_or_eq.mp hj).resolve_right ?_)
        rintro rfl
        exact hne Std.ReflCmp.compare_self
    · rcases (mem_insert_iff _).mp hk with rfl | hk
      · exact ⟨n, by omega, rfl⟩
      · obtain ⟨j, hj, rfl⟩ := ih.keys k hk
        exact ⟨j, by omega, rfl⟩

theorem clocked_fillAndRepeat : Clocked fillAndRepeat := by
  refine List.pairwise_append.mpr ⟨?_, List.pairwise_singleton _ _, ?_⟩
  · refine List.pairwise_map.mpr (List.pairwise_lt_range.imp fun hlt => ?_)
    exact Int.ofNat_le.mpr hlt.le
  · intro a ha b hb
    obtain ⟨j, hj, rfl⟩ := List.mem_map.mp ha
    rw [List.mem_singleton.mp hb]
    exact Int.ofNat_le.mpr (List.mem_range.mp hj).le

/-- The first address expires before the last one, which is in the table. -/
theorem Filled.not_spares {d : DiscouragedTable} (h : Filled 10000 d) : ¬ Spares 10000 (hostName 9999) d := by
  have hlive : d.size ≤ (d.unexpired 10000).size := by
    refine size_le_of_keys (l := []) fun k hk => .inl ?_
    obtain ⟨j, hj, rfl⟩ := h.keys k hk
    refine mem_of_getElem? (getElem?_unexpired.mpr ⟨h.entry j hj, ?_⟩)
    unfold DISCOURAGE_DURATION_SEC
    omega
  intro hspares
  have hne : hostName 0 ≠ hostName 9999 := fun heq => by
    have := hostName_inj (by omega) (by omega) heq
    omega
  have hbefore := hspares _ (h.entry 9999 (by omega)) (by rw [unexpired_eq hlive, h.size]) (hostName 0) _
    (h.entry 0 (by omega)) hne
  have hle := hbefore.le
  dsimp only at hle
  omega

theorem fillAndRepeat_eq : fillAndRepeat = fill 10000 ++ .discourage 10000 (hostName 9999) :: [] := by
  rw [fillAndRepeat]

section
variable {normalize : String → Option String}

/-- A run is orderly exactly when no call is for an address that a full table has in another place
than the first. -/
theorem orderly_iff {l : List DiscourageOp} (hclock : Clocked l) :
    Orderly normalize l ↔ ∀ before now address after key, l = before ++ .discourage now address :: after →
      normalize address = some key → Spares now key (run normalize before) := by
  constructor
  · intro h before now address after key hl hkey
    exact (disciplined_run_iff hkey).mp (h.disciplined before now address after key hl hkey)
  · intro h
    refine ⟨fun l' _ => size_run normalize l', fun before now address after key hl hkey => ?_,
      fun before now address middle after key t hl hkey hmiddle ht => ?_⟩
    · exact (disciplined_run_iff hkey).mpr (h before now address after key hl hkey)
    · have hassoc : l = (before ++ .discourage now address :: middle) ++ after := by
        rw [hl, List.append_assoc, List.cons_append]
      have hpart : Clocked (before ++ .discourage now address :: middle) := by
        rw [hassoc] at hclock
        exact (List.pairwise_append.mp hclock).1
      refine (stays_run hkey hpart (fun before' now' address' after' new heq hnew => ?_) hmiddle ht).imp_left ?_
      · refine h before' now' address' (after' ++ after) new ?_ hnew
        rw [hassoc, heq, List.append_assoc, List.cons_append]
      · rintro ⟨e, hin, he⟩
        exact isDiscouraged_of_get hkey hin (lt_of_lt_of_le ht he)

end

/-- Not a run in which the last address of a full table is discouraged again. -/
theorem orderly_iff_repeat : ¬ Orderly some fillAndRepeat := fun h =>
  (filled_run 10000 le_rfl).not_spares
    ((orderly_iff clocked_fillAndRepeat).mp h (fill 10000) 10000 (hostName 9999) [] (hostName 9999) fillAndRepeat_eq rfl)

/-- The first address is discouraged no more, although no new address needs its place. -/
theorem repeat_evicts_another : ¬ ∀ l : List DiscourageOp, Clocked l → Orderly some l := fun h =>
  (filled_run 10000 le_rfl).not_spares ((disciplined_run_iff rfl).mp
    ((h fillAndRepeat clocked_fillAndRepeat).disciplined (fill 10000) 10000 (hostName 9999) [] (hostName 9999)
      fillAndRepeat_eq rfl))

end DiscouragedTable

end UnicityPow
