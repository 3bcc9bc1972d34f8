import Mathlib.Data.List.Nodup
import NbLot.Source.Environ.Model

/-!
# The variables in the block

A block represents a list of variables if it begins with their strings, one behind the
other. `Represents` ties the state to such a list; each function finds, removes or adds
the variable in it that it is about.
-/
namespace NbLot.Source.Environ

open Lib List Function

/-- A name for a variable. -/
def ValidName (name : CString) : Prop := name.1 ≠ [] ∧ equals ∉ name.1

instance (name : CString) : Decidable (ValidName name) := inferInstanceAs (Decidable (_ ∧ _))

/-- A variable's string in the block. -/
def encode (var : CString × CString) : List UInt8 := var.1.1 ++ equals :: var.2.1 ++ [0]

/-- The value of a variable in a list of variables. -/
def valueOf (vars : List (CString × CString)) (name : CString) : Option CString :=
  (vars.find? fun var => var.1 = name).map Prod.snd

/-- The state holds the variables of the list. -/
structure Represents (s : EnvState) (vars : List (CString × CString)) : Prop where
  valid : ∀ var ∈ vars, ValidName var.1
  nodup : (vars.map Prod.fst).Nodup
  size : s.envsize = (vars.flatMap encode).length
  null : s.envp = 0 → vars = []
  block : s.envp ≠ 0 → ∃ free, s.block s.envp = some (vars.flatMap encode ++ free)
  nowhere : s.block 0 = none

variable {s s' : EnvState} {vars pre post : List (CString × CString)} {name value : CString}
  {var : CString × CString} {bytes rest free : List UInt8} {a : Alloc} {more : Nat}

theorem length_encode (var : CString × CString) :
    (encode var).length = var.1.1.length + var.2.1.length + 2 := by
  simp only [encode, length_append, length_cons, length_nil]
  omega

theorem Represents.bytes_eq (h : Represents s vars) :
    ∃ free, s.bytes = vars.flatMap encode ++ free := by
  by_cases hnull : s.envp = 0
  · exact ⟨[], by simp [EnvState.bytes, hnull, h.nowhere, h.null hnull]⟩
  · obtain ⟨free, hblock⟩ := h.block hnull
    exact ⟨free, by simp [EnvState.bytes, hblock]⟩

theorem cstr_append (text : CString) (rest : List UInt8) : cstr (text.1 ++ 0 :: rest) = text.1 :=
  cstr_append_nul text.1 rest text.2

theorem nulFree_var (var : CString × CString) : ∀ b ∈ var.1.1 ++ equals :: var.2.1, b ≠ 0 := by
  intro b hb
  rcases mem_append.mp hb with hb | hb
  · exact var.1.2 b hb
  · rcases mem_cons.mp hb with rfl | hb
    · decide
    · exact var.2.2 b hb

theorem cstr_encode : cstr (encode var ++ rest) = var.1.1 ++ equals :: var.2.1 := by
  have h := cstr_append ⟨_, nulFree_var var⟩ rest
  simpa [encode] using h

theorem strlen_encode : strlen (encode var ++ rest) = some ((encode var).length - 1) := by
  rw [strlen, cstr_encode]
  simp [encode]

/-- A name is compared with a variable's string: the loop stops inside it. -/
theorem envCmpname_encode (hname : equals ∉ name.1) (hvar : equals ∉ var.1.1) :
    envCmpname (name.1 ++ [0]) (encode var ++ rest) = some (decide (var.1 = name)) := by
  obtain ⟨⟨text, htext⟩, value⟩ := var
  obtain ⟨chars, hchars⟩ := name
  simp only [encode, Subtype.mk.injEq] at hname hvar ⊢
  induction chars generalizing text with
  | nil =>
    cases text with
    | nil => rfl
    | cons c text =>
      have hc : c ≠ 0 := htext c mem_cons_self
      have hne : c ≠ equals := fun heq => hvar (heq ▸ mem_cons_self)
      simp [envCmpname, Ne.symm hc, hne]
  | cons b chars ih =>
    rw [forall_mem_cons] at hchars
    rw [mem_cons, not_or] at hname
    cases text with
    | nil => simp [envCmpname, hchars.1, Ne.symm hname.1]
    | cons c text =>
      rw [forall_mem_cons] at htext
      rw [mem_cons, not_or] at hvar
      by_cases hbc : b = c
      · have hrest := ih text htext.2 hvar.2 hchars.2 hname.2
        simp only [cons_append, envCmpname, hbc, List.cons.injEq, true_and] at hrest ⊢
        exact hrest
      · simp [envCmpname, hbc, hchars.1, Ne.symm hbc]

theorem findLoop_spec (free : List UInt8) (hname : equals ∉ name.1) (hvalid : ∀ var ∈ post, equals ∉ var.1.1)
    (pre : List (CString × CString)) (fuel : Nat) (hfuel : (post.flatMap encode).length < fuel) :
    findLoop ((pre ++ post).flatMap encode ++ free) ((pre ++ post).flatMap encode).length name fuel
        (pre.flatMap encode).length =
      some ((post.findIdx? fun var => var.1 = name).map fun i =>
        ((pre ++ post.take i).flatMap encode).length) := by
  induction post generalizing pre fuel with
  | nil =>
    cases fuel with
    | zero => simp at hfuel
    | succ fuel => simp [findLoop]
  | cons var post ih =>
    rw [forall_mem_cons] at hvalid
    have hlen := length_encode var
    rw [flatMap_cons, length_append] at hfuel
    cases fuel with
    | zero => simp at hfuel
    | succ fuel =>
      have hdrop : (((pre ++ var :: post).flatMap encode) ++ free).drop (pre.flatMap encode).length =
          encode var ++ (post.flatMap encode ++ free) := by simp
      have hlt : (pre.flatMap encode).length < ((pre ++ var :: post).flatMap encode).length := by
        rw [flatMap_append, flatMap_cons, length_append, length_append]
        omega
      rw [findLoop, if_pos hlt, hdrop, envCmpname_encode hname hvalid.1]
      by_cases hvar : var.1 = name
      · simp [hvar, findIdx?_cons]
      · have hnext := ih hvalid.2 (pre ++ [var]) fuel (by omega)
        have hlist : pre ++ [var] ++ post = pre ++ var :: post := by simp
        have hstep : (pre.flatMap encode).length + ((encode var).length - 1 + 1) =
            ((pre ++ [var]).flatMap encode).length := by
          simp [hlen]
        rw [hlist] at hnext
        simp only [hvar, decide_false, strlen_encode, hstep, hnext, findIdx?_cons,
          Bool.false_eq_true, if_false, Option.map_map]
        congr 2
        funext i
        simp

theorem valueOf_eq_none : valueOf vars name = none ↔ ∀ var ∈ vars, var.1 ≠ name := by
  simp [valueOf]

theorem valueOf_append_cons (hpre : ∀ var ∈ pre, var.1 ≠ name) :
    valueOf (pre ++ (name, value) :: post) name = some value := by
  have hnone : pre.find? (fun var => decide (var.1 = name)) = none := by
    rw [find?_eq_none]
    intro var hvar
    simpa using hpre var hvar
  simp [valueOf, hnone]

theorem envFindvar_spec (h : Represents s vars) (hname : ValidName name) :
    (valueOf vars name = none ∧ envFindvar s name = some none) ∨
      ∃ pre value post, vars = pre ++ (name, value) :: post ∧ valueOf vars name = some value ∧
        envFindvar s name = some (some (pre.flatMap encode).length) := by
  obtain ⟨free, hbytes⟩ := h.bytes_eq
  have hloop := findLoop_spec free hname.2 (fun var hvar => (h.valid var hvar).2) []
    (s.envsize + 1) (by rw [h.size]; omega)
  simp only [nil_append, flatMap_nil, length_nil] at hloop
  have hfind : envFindvar s name = some ((vars.findIdx? fun var => var.1 = name).map fun i =>
      ((vars.take i).flatMap encode).length) := by
    rw [envFindvar, hbytes, ← hloop, h.size]
  cases hidx : vars.findIdx? fun var => var.1 = name with
  | none =>
    rw [hidx] at hfind
    refine .inl ⟨?_, hfind⟩
    rw [findIdx?_eq_none_iff] at hidx
    rw [valueOf_eq_none]
    intro var hvar
    simpa using hidx var hvar
  | some i =>
    rw [hidx] at hfind
    obtain ⟨hi, hat, hbefore⟩ := findIdx?_eq_some_iff_getElem.mp hidx
    have hkey : vars[i].1 = name := by simpa using hat
    have hsplit : vars = vars.take i ++ (name, vars[i].2) :: vars.drop (i + 1) := by
      refine (take_append_drop i vars).symm.trans ?_
      rw [drop_eq_getElem_cons hi, ← hkey]
    refine .inr ⟨vars.take i, vars[i].2, vars.drop (i + 1), hsplit, ?_, hfind⟩
    refine (congrArg (valueOf · name) hsplit).trans (valueOf_append_cons fun var hvar => ?_)
    obtain ⟨j, hj, rfl⟩ := getElem_of_mem hvar
    rw [length_take] at hj
    have := hbefore j (by omega)
    simpa using this

theorem envFindvar_null (h : Represents s vars) (hname : ValidName name) :
    (if s.envp ≠ 0 then envFindvar s name else some none) = envFindvar s name := by
  by_cases henvp : s.envp = 0
  · obtain rfl := h.null henvp
    rw [if_neg (not_not_intro henvp)]
    rcases envFindvar_spec h hname with ⟨-, hfind⟩ | ⟨pre, value, post, hvars, -⟩
    · exact hfind.symm
    · simp at hvars
  · rw [if_pos henvp]

/-- The loop of `env_removevar` closes the gap that the string leaves. -/
theorem moveLoop_spec (tail pre gap free : List UInt8) (hgap : gap ≠ []) :
    ∃ rest, moveLoop tail.length pre.length (pre.length + gap.length) (pre ++ gap ++ tail ++ free) =
      some (pre ++ tail ++ rest) := by
  induction tail generalizing pre gap with
  | nil => exact ⟨gap ++ free, by simp [moveLoop]⟩
  | cons b tail ih =>
    cases gap with
    | nil => exact absurd rfl hgap
    | cons g gap =>
      -- the gap moves on by one byte
      obtain ⟨rest, hrest⟩ := ih (pre ++ [b]) (gap ++ [b]) (by simp)
      refine ⟨rest, ?_⟩
      have hsrc : (pre ++ g :: gap ++ b :: tail ++ free)[pre.length + (g :: gap).length]? =
          some b := by
        simp
      rw [length_cons, moveLoop, hsrc]
      simpa [Nat.add_comm, Nat.add_left_comm] using hrest

theorem Represents.envp_ne (h : Represents s vars) (hvars : vars ≠ []) : s.envp ≠ 0 :=
  fun hnull => hvars (h.null hnull)

theorem envRemovevar_spec (h : Represents s (pre ++ var :: post)) :
    ∃ s', envRemovevar s (pre.flatMap encode).length = some s' ∧ s'.envp = s.envp ∧
      (∀ addr, addr ≠ s.envp → s'.block addr = s.block addr) ∧
      Represents s' (pre ++ post) := by
  have henvp := h.envp_ne (by simp)
  obtain ⟨free, hblock⟩ := h.block henvp
  have hlen := length_encode var
  have hbytes : s.bytes =
      pre.flatMap encode ++ encode var ++ post.flatMap encode ++ free := by
    simp [EnvState.bytes, hblock]
  have hdrop : s.bytes.drop (pre.flatMap encode).length =
      encode var ++ (post.flatMap encode ++ free) := by
    rw [hbytes]
    simp
  have hlast : (encode var).length - 1 + 1 = (encode var).length := by omega
  have hcount : s.envsize - ((pre.flatMap encode).length + (encode var).length) =
      (post.flatMap encode).length := by
    rw [h.size]
    simp
    omega
  obtain ⟨rest, hmove⟩ := moveLoop_spec (post.flatMap encode) (pre.flatMap encode) (encode var)
    free (by intro hnil; simp [hnil] at hlen)
  refine ⟨(s.setBlock s.envp (some (pre.flatMap encode ++ post.flatMap encode ++ rest))).setEnv
    s.envp (s.envsize - (encode var).length), ?_, rfl, fun addr haddr => by simp [haddr], ?_⟩
  · simp only [envRemovevar, hdrop, strlen_encode, hlast, hcount]
    rw [hbytes, hmove]
  · refine ⟨fun v hv => h.valid v ?_, ?_, ?_, fun hnull => absurd hnull henvp, fun _ => ?_, ?_⟩
    · rw [mem_append, mem_cons]
      rcases mem_append.mp hv with hv | hv
      · exact .inl hv
      · exact .inr (.inr hv)
    · refine h.nodup.sublist (List.Sublist.map _ ?_)
      exact List.Sublist.append_left (sublist_cons_self var post) pre
    · simp only [h.size]
      simp
      omega
    · exact ⟨rest, by simp⟩
    · simp [Ne.symm henvp, h.nowhere]

/-- The allocator returns a block that is not in use, or lets the old one grow or shrink
in place, and the block is as large as it was asked for. -/
def Alloc.Sound (a : Alloc) (s : EnvState) (more : Nat) : Prop :=
  a.addr ≠ 0 ∧ (s.block a.addr = none ∨ a.addr = s.envp) ∧ more ≤ a.fill.length

instance (a : Alloc) (s : EnvState) (more : Nat) : Decidable (a.Sound s more) :=
  inferInstanceAs (Decidable (_ ∧ _ ∧ _))

theorem Alloc.Sound.mono {m n : Nat} (ha : a.Sound s n) (henvp : s'.envp = s.envp)
    (hblock : ∀ addr, addr ≠ s.envp → s'.block addr = s.block addr) (hle : m ≤ n) :
    a.Sound s' m := by
  refine ⟨ha.1, ?_, hle.trans ha.2.2⟩
  rw [henvp]
  by_cases haddr : a.addr = s.envp
  · exact .inr haddr
  · rw [hblock _ haddr]
    exact ha.2.1

/-- A block with the variables of the list and room behind them. -/
structure Room (s : EnvState) (vars : List (CString × CString)) (addr more : Nat) : Prop where
  valid : ∀ var ∈ vars, ValidName var.1
  nodup : (vars.map Prod.fst).Nodup
  addr_ne : addr ≠ 0
  block : ∃ free, s.block addr = some (vars.flatMap encode ++ free) ∧ free.length = more
  nowhere : s.block 0 = none

theorem realloc_spec (h : Represents s vars) (henvp : s.envp ≠ 0) (ha : a.Sound s more)
    (hsize : 1 ≤ s.envsize + more) :
    ∃ s', realloc s s.envp (s.envsize + more) (some a) = some (s', a.addr) ∧
      s'.envp = s.envp ∧ s'.envsize = s.envsize ∧ Room s' vars a.addr more := by
  obtain ⟨free, hblock⟩ := h.block henvp
  refine ⟨(s.setBlock s.envp none).setBlock a.addr
    (some ((vars.flatMap encode ++ free ++ a.fill).take (s.envsize + more))), ?_, rfl, rfl,
    h.valid, h.nodup, ha.1, ⟨(free ++ a.fill).take more, ?_, ?_⟩, ?_⟩
  · simp only [realloc, hblock]
    exact if_neg (by omega)
  · rw [EnvState.setBlock_block, update_self, append_assoc, h.size, take_length_add_append]
  · have := ha.2.2
    rw [length_take, length_append]
    omega
  · simp [Ne.symm ha.1, Ne.symm henvp, h.nowhere]

theorem malloc_spec (h : Represents s []) (ha : a.Sound s more) :
    Room (malloc s more (some a)).1 [] a.addr more := by
  refine ⟨nofun, nodup_nil, ha.1, ⟨a.fill.take more, by simp [malloc], ?_⟩, ?_⟩
  · rw [length_take]
    exact Nat.min_eq_left ha.2.2
  · simp [malloc, Ne.symm ha.1, h.nowhere]

theorem storeVar_spec {addr : Nat} (h : Room s vars addr (name.1.length + value.1.length + 2))
    (hname : ValidName name) (hnew : valueOf vars name = none) :
    ∃ s', storeVar (s.setEnv addr ((vars.flatMap encode).length +
        (name.1.length + value.1.length + 2))) addr (vars.flatMap encode).length name value =
          some s' ∧ Represents s' (vars ++ [(name, value)]) := by
  obtain ⟨free, hblock, hfree⟩ := h.block
  have hlen : (encode (name, value)).length = free.length := (length_encode _).trans hfree.symm
  have htext : name.1 ++ equals :: value.1 ++ [0] = encode (name, value) := rfl
  have hfits : (vars.flatMap encode).length + (encode (name, value)).length ≤
      (vars.flatMap encode ++ free).length := by
    rw [length_append]
    omega
  have hrest : (vars.flatMap encode ++ free).drop ((vars.flatMap encode).length +
      (encode (name, value)).length) = [] := drop_eq_nil_of_le (by simp [hlen])
  refine ⟨(s.setEnv addr ((vars.flatMap encode).length +
    (name.1.length + value.1.length + 2))).setBlock addr
      (some (vars.flatMap encode ++ encode (name, value))), ?_, fun v hv => ?_, ?_, ?_,
    fun hnull => absurd hnull h.addr_ne, fun _ => ⟨[], ?_⟩, ?_⟩
  · simp only [storeVar, EnvState.setEnv_block, hblock, htext, if_pos hfits, take_left, hrest,
      append_nil]
  · rcases mem_append.mp hv with hv | hv
    · exact h.valid v hv
    · rw [mem_singleton.mp hv]
      exact hname
  · rw [map_append, nodup_append]
    refine ⟨h.nodup, by simp, ?_⟩
    intro key hkey other hother heq
    obtain ⟨v, hv, rfl⟩ := mem_map.mp hkey
    simp only [map_cons, map_nil, mem_singleton] at hother
    exact valueOf_eq_none.mp hnew v hv (heq.trans hother)
  · simp [hlen, hfree]
  · simp
  · simp [Ne.symm h.addr_ne, h.nowhere]

theorem getenv_spec (h : Represents s vars) (hname : ValidName name) :
    getenv s (some name) = some (match valueOf vars name with
      | some value => .ok value
      | none => .error .enoent) := by
  rcases envFindvar_spec h hname with ⟨hnone, hfind⟩ | ⟨pre, value, post, hvars, hvalue, hfind⟩
  · simp only [getenv, hfind, hnone]
  · obtain ⟨free, hbytes⟩ := h.bytes_eq
    rw [hvars] at hbytes
    have hdrop : s.bytes.drop (pre.flatMap encode).length =
        encode (name, value) ++ (post.flatMap encode ++ free) := by
      rw [hbytes]
      simp
    have hbefore : (name.1 ++ equals :: value.1).takeWhile (· ≠ equals) = name.1 := by
      have hnot : ∀ b ∈ name.1, decide (b ≠ equals) = true := fun b hb =>
        decide_eq_true fun (heq : b = equals) => hname.2 (heq ▸ hb)
      rw [takeWhile_append_of_pos hnot]
      simp
    have htail : s.bytes.drop ((pre.flatMap encode).length + name.1.length + 1) =
        value.1 ++ 0 :: (post.flatMap encode ++ free) := by
      rw [Nat.add_assoc, ← drop_drop, hdrop]
      simp [encode]
    have hpvalue : cstr (s.bytes.drop ((pre.flatMap encode).length + name.1.length + 1)) =
        value.1 := by
      rw [htail, cstr_append]
    simp only [getenv, hfind, hdrop, cstr_encode, hbefore, hvalue]
    rw [if_pos (by simp)]
    simp only [hpvalue]

theorem valueOf_remove (hnodup : ((pre ++ (name, value) :: post).map Prod.fst).Nodup) :
    valueOf (pre ++ post) = update (valueOf (pre ++ (name, value) :: post)) name none := by
  rw [map_append, map_cons, nodup_middle, nodup_cons, ← map_append] at hnodup
  funext key
  by_cases hkey : key = name
  · subst hkey
    rw [update_self, valueOf_eq_none]
    rintro var hvar rfl
    exact hnodup.1 (mem_map.mpr ⟨var, hvar, rfl⟩)
  · simp [valueOf, hkey, Ne.symm hkey]

theorem valueOf_add (hnew : valueOf vars name = none) :
    valueOf (vars ++ [(name, value)]) = update (valueOf vars) name (some value) := by
  funext key
  by_cases hkey : key = name
  · subst hkey
    simp only [valueOf, Option.map_eq_none_iff] at hnew
    simp [valueOf, hnew]
  · simp [valueOf, hkey, Ne.symm hkey]

theorem unsetenv_spec (h : Represents s (pre ++ (name, value) :: post))
    (hfind : envFindvar s name = some (some (pre.flatMap encode).length)) (ha : a.Sound s more)
    (hothers : name.1.length + value.1.length + 2 < s.envsize) :
    ∃ s', unsetenv s name (some a) = some (s', .ok ()) ∧ Represents s' (pre ++ post) := by
  have henvp := h.envp_ne (by simp)
  obtain ⟨s₁, hremove, henvp₁, hblock₁, h₁⟩ := envRemovevar_spec h
  have hsound : a.Sound s₁ 0 := ha.mono henvp₁ hblock₁ (Nat.zero_le _)
  have hsize : 1 ≤ s₁.envsize + 0 := by
    have hlen := length_encode (name, value)
    have hsize := h.size
    rw [h₁.size]
    simp only [flatMap_append, flatMap_cons, length_append] at hsize ⊢
    simp only at hlen
    omega
  obtain ⟨s₂, hrealloc, -, hsize₂, h₂⟩ := realloc_spec h₁ (henvp₁ ▸ henvp) hsound hsize
  obtain ⟨free, hblock₂, -⟩ := h₂.block
  refine ⟨s₂.setEnv a.addr s₂.envsize, ?_, ?_⟩
  · rw [Nat.add_zero] at hrealloc
    simp only [unsetenv, hfind, hremove, hrealloc, if_neg ha.1]
  · exact ⟨h₂.valid, h₂.nodup, by rw [EnvState.setEnv_envsize, hsize₂, h₁.size],
      fun hnull => absurd hnull ha.1, fun _ => ⟨free, hblock₂⟩, h₂.nowhere⟩

theorem addvar_spec (h : Represents s vars) (hname : ValidName name)
    (hnew : valueOf vars name = none) (ha : a.Sound s (name.1.length + value.1.length + 2)) :
    ∃ s', addvar s name value (some a) = some (s', .ok ()) ∧
      Represents s' (vars ++ [(name, value)]) := by
  by_cases henvp : s.envp = 0
  · obtain rfl := h.null henvp
    obtain ⟨s', hstore, h'⟩ := storeVar_spec (malloc_spec h ha) hname hnew
    refine ⟨s', ?_, h'⟩
    have hsame : (malloc s (name.1.length + value.1.length + 2) (some a)).1.envp = 0 := henvp
    simp only [flatMap_nil, length_nil, Nat.zero_add] at hstore
    simp only [addvar, henvp, ne_eq]
    generalize hmade : malloc s (name.1.length + value.1.length + 2) (some a) = made at hstore hsame
    obtain ⟨s₁, addr⟩ := made
    obtain rfl : a.addr = addr := congrArg Prod.snd hmade
    simp only at hsame hstore
    simp only [if_neg ha.1, hsame, not_true_eq_false, if_false, hstore, Option.map_some]
  · obtain ⟨s₁, hrealloc, henvp₁, hsize₁, hroom⟩ := realloc_spec h henvp ha (by omega)
    obtain ⟨s', hstore, h'⟩ := storeVar_spec hroom hname hnew
    refine ⟨s', ?_, h'⟩
    rw [← h.size, ← hsize₁] at hstore
    simp only [addvar, henvp, ne_eq, not_false_eq_true, if_true, hrealloc, if_neg ha.1, henvp₁,
      hstore, Option.map_some]

theorem addvar_none (h : Represents s vars) :
    addvar s name value none = some (s, .error .enomem) := by
  by_cases henvp : s.envp = 0
  · simp [addvar, henvp, malloc]
  · obtain ⟨free, hblock⟩ := h.block henvp
    simp [addvar, henvp, realloc, hblock]

end NbLot.Source.Environ
