import Mathlib.Data.Fintype.Pi
import EcatMaster.Utils.Config

/-! # `task_defs.hpp`: the task classes and their command messages

`TaskClass` holds the members each class adds to `TaskWrapper`. A `DM_MOTOR` keeps its ranges and a
MIT command its five quantities as rationals: they only go through the linear maps of `dm_motor.cpp`.
The LK and DM classes subscribe to one message type, chosen by `sdowrite_control_type`; with a value
the switch does not know there is no subscription and no command arrives.
-/

namespace EcatMaster
set_option autoImplicit false

def DJIRC_APP_ID : UInt8 := 1
def LK_APP_ID : UInt8 := 2
def HIPNUC_IMU_CAN_APP_ID : UInt8 := 3
def DSHOT_APP_ID : UInt8 := 4
def DJICAN_APP_ID : UInt8 := 5
def ONBOARD_PWM_APP_ID : UInt8 := 6
def SBUS_RC_APP_ID : UInt8 := 11
def DM_MOTOR_APP_ID : UInt8 := 12
def SUPER_CAP_APP_ID : UInt8 := 13

def DJIMOTOR_CTRL_TYPE_CURRENT : UInt8 := 0x01
def DJIMOTOR_CTRL_TYPE_SPEED : UInt8 := 0x02
def DJIMOTOR_CTRL_TYPE_SINGLE_ROUND_POSITION : UInt8 := 0x03

def LK_CTRL_TYPE_OPENLOOP_CURRENT : UInt8 := 0x01
def LK_CTRL_TYPE_TORQUE : UInt8 := 0x02
def LK_CTRL_TYPE_SPEED_WITH_TORQUE_LIMIT : UInt8 := 0x03
def LK_CTRL_TYPE_MULTI_ROUND_POSITION : UInt8 := 0x04
def LK_CTRL_TYPE_MULTI_ROUND_POSITION_WITH_SPEED_LIMIT : UInt8 := 0x05
def LK_CTRL_TYPE_SINGLE_ROUND_POSITION : UInt8 := 0x06
def LK_CTRL_TYPE_SINGLE_ROUND_POSITION_WITH_SPEED_LIMIT : UInt8 := 0x07
def LK_CTRL_TYPE_BROADCAST_CURRENT : UInt8 := 0x08

def DM_CTRL_TYPE_MIT : UInt8 := 0x01
def DM_CTRL_TYPE_POSITION_WITH_SPEED_LIMIT : UInt8 := 0x02
def DM_CTRL_TYPE_SPEED : UInt8 := 0x03

inductive TaskClass where
  | dbusRc
  | lkMotor (isBroadcastMode : Bool) (controlType : UInt8)
  | hipnucImuCan (confFrameName : String)
  | dshot (initValue : UInt16)
  | djiMotor (isMotorEnabled : Fin 4 → Bool)
  | onboardPwm (initValue : UInt16)
  | sbusRc
  | dmMotor (controlType : UInt8) (pmax vmax tmax : ℚ)
  | superCap
deriving DecidableEq

structure TaskWrapper where
  cls : TaskClass
  pdowriteOffset : UInt16
  pdoreadOffset : UInt16
  connectionLostReadAction : UInt8
  connectionLostWriteAction : UInt8
deriving DecidableEq

namespace TaskWrapper

def hasPublishers (t : TaskWrapper) : Bool :=
  match t.cls with
  | .dbusRc | .lkMotor _ _ | .hipnucImuCan _ | .djiMotor _ | .sbusRc | .dmMotor _ _ _ _
  | .superCap => true
  | .dshot _ | .onboardPwm _ => false

def hasSubscribers (t : TaskWrapper) : Bool :=
  match t.cls with
  | .lkMotor _ _ | .dshot _ | .djiMotor _ | .onboardPwm _ | .dmMotor _ _ _ _ | .superCap => true
  | .dbusRc | .hipnucImuCan _ | .sbusRc => false

end TaskWrapper

/-! The motors of a `DJI_MOTOR`, as its members number them. -/

def motor1 : Fin 4 := 0
def motor2 : Fin 4 := 1
def motor3 : Fin 4 := 2
def motor4 : Fin 4 := 3

/-- The messages of the command topics. -/
inductive Command where
  | writeDJIMotor (enable : Fin 4 → UInt8) (cmd : Fin 4 → Int16)
  | writeOnBoardPWM (channel1 channel2 channel3 channel4 : UInt16)
  | writeDSHOT (channel1 channel2 channel3 channel4 : UInt16)
  | writeLkMotorOpenloopControl (enable : UInt8) (torque : Int16)
  | writeLkMotorTorqueControl (enable : UInt8) (torque : Int16)
  | writeLkMotorSpeedControlWithTorqueLimit (enable : UInt8) (torqueLimit : Int16) (speed : Int32)
  | writeLkMotorMultiRoundPositionControl (enable : UInt8) (angle : Int32)
  | writeLkMotorMultiRoundPositionControlWithSpeedLimit (enable : UInt8) (speedLimit : Int16)
      (angle : Int32)
  | writeLkMotorSingleRoundPositionControl (enable direction : UInt8) (angle : UInt32)
  | writeLkMotorSingleRoundPositionControlWithSpeedLimit (enable direction : UInt8)
      (speedLimit : Int16) (angle : UInt32)
  | writeLkMotorBroadcastCurrentControl (motor1Cmd motor2Cmd motor3Cmd motor4Cmd : Int16)
  | writeDmMotorMITControl (enable : UInt8) (pDes vDes kp kd torque : ℚ)
  | writeDmMotorPositionControlWithSpeedLimit (enable : UInt8) (position speed : F32)
  | writeDmMotorSpeedControl (enable : UInt8) (speed : F32)
  | writeSuperCap (capEnable doCharge maxChargePower allowChargePower : UInt8)
deriving DecidableEq

end EcatMaster
