import Mathlib.Data.Vector.Basic
import IocpChat.Lib.LittleEndian

/-! Packed layouts: a value as a fixed number of bytes, fields one behind the
other without padding. Layouts carry the proofs that encoding and decoding are
inverse to each other, so a layout built from the combinators needs none. -/

open LittleEndian

/-- How a value of type `β` lies in memory. -/
structure Packed (β : Type*) where
  size : ℕ
  toBytes : β → List UInt8
  ofBytes : List UInt8 → β
  length_toBytes : ∀ b, (toBytes b).length = size
  ofBytes_append : ∀ b rest, ofBytes (toBytes b ++ rest) = b
  toBytes_ofBytes : ∀ bs, size ≤ bs.length → toBytes (ofBytes bs) = bs.take size

namespace Packed

variable {β γ : Type*}

/-- A little-endian number of `k` bytes. -/
def number (k : ℕ) (toNat : β → ℕ) (ofNat : ℕ → β) (hlt : ∀ b, toNat b < 256 ^ k)
    (hof : ∀ b, ofNat (toNat b) = b) (hto : ∀ n, n < 256 ^ k → toNat (ofNat n) = n) :
    Packed β where
  size := k
  toBytes b := leBytes k (toNat b)
  ofBytes bs := ofNat (leNat (bs.take k))
  length_toBytes b := leBytes_length k _
  ofBytes_append b rest := by
    rw [List.take_left' (leBytes_length k _), leNat_leBytes, Nat.mod_eq_of_lt (hlt b), hof]
  toBytes_ofBytes bs h := by
    have hlen : (bs.take k).length = k := by simp [h]
    have hval := leNat_lt (bs.take k)
    rw [hlen] at hval
    have hbytes := leBytes_leNat (bs.take k)
    rw [hlen] at hbytes
    rw [hto _ hval, hbytes]

/-- An array of `n` bytes. Past the end of the given memory it reads zeros. -/
def array (n : ℕ) : Packed (List.Vector UInt8 n) where
  size := n
  toBytes v := v.toList
  ofBytes bs := ⟨(bs ++ List.replicate n 0).take n, by simp⟩
  length_toBytes v := v.toList_length
  ofBytes_append v rest := by
    apply Subtype.ext
    change (v.toList ++ rest ++ List.replicate n 0).take n = v.toList
    rw [List.append_assoc, List.take_left' v.toList_length]
  toBytes_ofBytes bs h := by
    change (bs ++ List.replicate n 0).take n = bs.take n
    rw [List.take_append_of_le_length h]

/-- Two fields, one behind the other. -/
def pair (p : Packed β) (q : Packed γ) : Packed (β × γ) where
  size := p.size + q.size
  toBytes b := p.toBytes b.1 ++ q.toBytes b.2
  ofBytes bs := (p.ofBytes bs, q.ofBytes (bs.drop p.size))
  length_toBytes b := by rw [List.length_append, p.length_toBytes, q.length_toBytes]
  ofBytes_append b rest := by
    rw [List.append_assoc, p.ofBytes_append, List.drop_left' (p.length_toBytes _),
      q.ofBytes_append]
  toBytes_ofBytes bs h := by
    have hq : q.size ≤ (bs.drop p.size).length := by rw [List.length_drop]; omega
    rw [p.toBytes_ofBytes bs (by omega), q.toBytes_ofBytes _ hq, List.take_add]

/-- The same bytes read as another type. -/
def iso (p : Packed β) (f : γ → β) (g : β → γ) (hgf : ∀ c, g (f c) = c)
    (hfg : ∀ b, f (g b) = b) : Packed γ where
  size := p.size
  toBytes c := p.toBytes (f c)
  ofBytes bs := g (p.ofBytes bs)
  length_toBytes c := p.length_toBytes _
  ofBytes_append c rest := by rw [p.ofBytes_append, hgf]
  toBytes_ofBytes bs h := by rw [hfg, p.toBytes_ofBytes bs h]

end Packed
