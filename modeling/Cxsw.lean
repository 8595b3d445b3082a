import Cxsw.CrMotion.FifoInterrupt
import Cxsw.CrMotion.Junction
import Cxsw.CrMotion.StepRecords
import Cxsw.CrMotion.VelocityProfile
import Cxsw.CrMotion.PlanRing
import Cxsw.CrMotion.StepPulses
import Cxsw.Lib.DigitalLine
import Cxsw.CrConfig.Presets
import Cxsw.Common.EepromRegions
import Cxsw.CrHeater.CrPid
import Cxsw.CrHeater.PwmCallBack
import Cxsw.CrModel.GcodeSource
import Cxsw.CrModel.VerifyCmd
import Cxsw.CrModel.CrHeaterManager
import Cxsw.CrModel.CrGcode
import Cxsw.CrModel.CrPrinter
import Cxsw.CrGcode.GcodeCmdGet
import Cxsw.CrGcode.SdGcodeParseFunc
import Cxsw.CrGcode.UnitMoves
import Cxsw.CrMsgQueue.SharedQueue
import Cxsw.CrMsgQueue.QueueNames
import Cxsw.CrMenu.MotionMenuItems
import Cxsw.CrMenu.PreheatMaterialMenuItem
import Cxsw.CrMenu.SdCardMenuItem
import Cxsw.CrGcode.GcodeG61Handle
import Cxsw.CrMotion.DiscardLine
import Cxsw.CrMotion.QuickStop
import Cxsw.CrMotion.MotionComplete
import Cxsw.CrModel.PrintAction
import Cxsw.CrModel.KeepActive
import Cxsw.CrModel.JogMoves
import Cxsw.CrMenu.ShowAction
import Cxsw.CrController.CrController
import Cxsw.CrLcd.CrKnobEvent
import Cxsw.Viewer.EventRuns
import Cxsw.Viewer.CxcodeSections
import Cxsw.Viewer.ModelColorManager
import Cxsw.Viewer.LayerIndex
import Cxsw.Viewer.GcodePath
import Cxsw.Viewer.CameraManager
import Cxsw.Viewer.Registries
import Cxsw.Klippy.Timelapse
import Cxsw.Klippy.PauseResume
import Cxsw.CrMotion.JunctionJerk
import Cxsw.CrGcode.LimitCommands
import Cxsw.CrGcode.HeatAndWait
import Cxsw.CrModel.StopResync
import Cxsw.Klippy.ResetThread
import Cxsw.Viewer.ModelExport
import Cxsw.CrMotion.StepperApi
import Cxsw.CrHeater.CrSensor
import Cxsw.CrHeater.PwmDuty
import Cxsw.CrModel.SerialBuffers
import Cxsw.CrGcode.GcodeWords
import Cxsw.CrGcode.GcodeHandle
import Cxsw.CrMotion.Trapezoid
import Cxsw.CrMotion.AxisLimits
import Cxsw.CrMotion.ZeroDivisors
import Cxsw.CrMenu.MoveAxisMenuItem
import Cxsw.CrModel.CrSdCard
import Cxsw.Viewer.LayerSelect
import Cxsw.Viewer.HeatMap
import Cxsw.Viewer.HeatMapCells
import Cxsw.Moonraker.Timelapse
import Cxsw.Lib.LeastFirst
import Cxsw.CrLog.LogFiles
import Cxsw.CrLog.CrLog
import Cxsw.CrModel.PutMotionCoord
import Cxsw.CrGcode.GcodeG27Handle
import Cxsw.CrGcode.GcodeM701Handle
import Cxsw.Lib.Vlq
import Cxsw.Chelper.Vlq
import Cxsw.Lib.Checksum
import Cxsw.Lib.Decoder
import Cxsw.Chelper.Crc16
import Cxsw.Chelper.MsgBlock
import Cxsw.Lib.GoBackN
import Cxsw.Chelper.SerialQueue
import Cxsw.Chelper.CommandQueues
import Cxsw.Chelper.Retransmit
import Cxsw.Chelper.SerialLink
import Cxsw.Chelper.CompressBisectAdd
import Cxsw.Chelper.CompressTotal
import Cxsw.Chelper.StepCompress
import Cxsw.Chelper.StepRuns
import Cxsw.Chelper.SteppersSync
import Cxsw.Mcu.Command
import Cxsw.Mcu.CommandRuns
import Cxsw.Mcu.Stepper
import Cxsw.Mcu.StepperRuns
import Cxsw.Mcu.Sched
import Cxsw.Mcu.Homing
import Cxsw.Chelper.Trdispatch
import Cxsw.CrModel.AutoMoveHome
