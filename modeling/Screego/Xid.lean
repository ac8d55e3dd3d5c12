import Screego.Server
import Mathlib.Data.Nat.Digits.Lemmas

/-!
# Ids as `rs/xid` prints them

An `xid.ID` of twelve bytes prints as base32hex: four zero bits are added at its end, and every five
bits give one of twenty characters.

* `xidText`, `xidSerial`: an id as a text, and back; **`xidSerial_xidText`**;
* `Env.counting`, `openServer`: environments in which `xid.New` counts;
* `Choice.plain`: choices with every order increasing; `createAlone`: a short run.
-/

set_option autoImplicit false

namespace Screego

open Lib

/-! ## Printing -/

/-- The character of a digit. -/
def xidChar (d : ℕ) : Char := xidAlphabet.getD d '0'

/-- `xid.ID.String`: at least twenty digits, the most significant first. -/
def xidText (id : XID) : String :=
  String.ofList ((((Nat.digits 32 (id.serial * 16)).rightpad 20 0).map xidChar).reverse)

/-- The number of the id that prints as the text. -/
def xidSerial (text : String) : ℕ :=
  Nat.ofDigits 32 (text.toList.reverse.map fun c => xidAlphabet.idxOf c) / 16

theorem idxOf_xidChar : ∀ d < 32, xidAlphabet.idxOf (xidChar d) = d := by decide

theorem xidChar_mem : ∀ d < 32, xidChar d ∈ xidAlphabet := by decide

/-- The digits of a text. -/
theorem digit_lt {n d : ℕ} (hd : d ∈ (Nat.digits 32 n).rightpad 20 0) : d < 32 := by
  rw [List.rightpad, List.mem_append] at hd
  rcases hd with hd | hd
  · exact Nat.digits_lt_base (by norm_num) hd
  · rw [List.eq_of_mem_replicate hd]
    norm_num

/-- **The text determines the id.** -/
theorem xidSerial_xidText (id : XID) : xidSerial (xidText id) = id.serial := by
  have hmap : (((Nat.digits 32 (id.serial * 16)).rightpad 20 0).map xidChar).map
      (fun c => xidAlphabet.idxOf c) = (Nat.digits 32 (id.serial * 16)).rightpad 20 0 := by
    rw [List.map_map]
    exact List.map_congr_left (fun d hd => idxOf_xidChar d (digit_lt hd)) |>.trans (List.map_id _)
  rw [xidSerial, xidText, String.toList_ofList, List.reverse_reverse, hmap, List.rightpad,
    Nat.ofDigits_append, Nat.ofDigits_replicate_zero, Nat.ofDigits_digits]
  omega

example : xidText ⟨0x4d88e15b60f486e428412dc9⟩ = "9m4e2mr0ui3e8a215n4g" := by decide +kernel

theorem xidText_injective : Function.Injective xidText := fun a b hab =>
  XID.serial_injective (by rw [← xidSerial_xidText a, hab, xidSerial_xidText])

theorem xidText_ne_empty (id : XID) : xidText id ≠ "" := by
  intro h
  have hlen := congrArg (fun s => s.toList.length) h
  simp only [xidText, String.toList_ofList, List.length_reverse, List.length_map,
    List.length_rightpad] at hlen
  exact absurd hlen (by simp)

theorem mem_xidText (id : XID) : ∀ c ∈ (xidText id).toList, c ∈ xidAlphabet := by
  intro c hc
  rw [xidText, String.toList_ofList, List.mem_reverse, List.mem_map] at hc
  obtain ⟨d, hd, rfl⟩ := hc
  exact xidChar_mem d (digit_lt hd)

/-! ## A run's surroundings -/

/-- **An environment**: `xid.New` counts; where the outside functions hash a text, the text itself
stands for its hash. -/
def Env.counting (config : Config) : Env where
  config := config
  xidNew := XID.mk
  xidNew_injective := fun _ _ h => congrArg XID.serial h
  xidString := xidText
  xidString_injective := xidText_injective
  xidString_ne_empty := xidText_ne_empty
  xidString_alphabet := mem_xidText
  xidBytes id i := UInt8.ofNat (id.serial / 256 ^ (11 - i.val))
  ipString ip := ".".intercalate (ip.map fun b => toString b.toNat)
  generateAuthKey user realm password := (user ++ ":" ++ realm ++ ":" ++ password).toUTF8.toList
  sign user := user

/-- A server on which everybody may create rooms. -/
def openServer : Env := Env.counting ⟨Config.authModeNone, "3478", false⟩

/-- **Choices**: there is an address, and every order is the increasing one. -/
def Choice.plain : Choice where
  get := .ok (some [10, 0, 0, 1], none)
  order _ := RangeOrder.increasing
  ties _ := Shuffle.keep _
  draw _ i := i
  now := 0

/-! ## Runs -/

namespace Input

def create (c : XID) (e : Create) : Input := .receive c (.create e) rfl

def join (c : XID) (e : Join) : Input := .receive c (.join e) rfl

def disconnected (c : XID) (e : Disconnected) : Input := .receive c (.disconnected e) rfl

end Input

theorem Event.fromClient_startShare : Event.startShare.fromClient = true := rfl

/-- A client creates a room and is alone in it. -/
def createAlone : List (Choice × Input) :=
  [.upgrade [] "" false, .create ⟨0⟩ ⟨"room", connectionLocal, false, "", "a", false⟩].map
    fun i => (Choice.plain, i)

end Screego
